import Reconfig.Yaml.Token

/-!
# YAML documents

A document is a tree of scalars, sequences and mappings. A node may have a name, under which it is
repeated elsewhere, and a tag.

* `Node`; `Properties`: the name and the tag before a node;
* `node?`, `items?`, `entries?` and the like: the nodes that tokens denote;
* **`Node.ofTokens?`**: the one document that tokens denote.

The readers recurse on a bound on the number of calls. Every fourth call in a row has taken a
token, so four times the number of tokens is enough.
-/

namespace Reconfig.Yaml

/-- A part of a document. Nodes are repeated by names of type `α`. -/
inductive Node (α : Type) where
  /-- The node of that name again. -/
  | alias (name : α)
  /-- A text, and whether it is written without quotes on lines that are not a block. -/
  | scalar (name? : Option α) (tag? : Option String) (plain : Bool) (text : String)
  /-- A list. -/
  | sequence (name? : Option α) (tag? : Option String) (items : List (Node α))
  /-- Keys with values. -/
  | mapping (name? : Option α) (tag? : Option String) (entries : List (Node α × Node α))

instance {α : Type} : Inhabited (Node α) := ⟨.scalar none none true ""⟩

/-- A node with the tokens behind it. -/
abbrev Found : Type := Node String × List Token

/-- The node that is not written at all. -/
def Node.absent : Node String := .scalar none none true ""

/-! ## Properties -/

/-- What stands before a node. -/
structure Properties where
  /-- The name. -/
  name? : Option String
  /-- The tag. -/
  tag? : Option Tag

namespace Properties

/-- The properties at the front of tokens: a name and a tag in either order, each at most once. -/
def take : List Token → Properties × List Token
  | .anchor name :: .tag t :: rest => (⟨some name, some t⟩, rest)
  | .tag t :: .anchor name :: rest => (⟨some name, some t⟩, rest)
  | .anchor name :: rest => (⟨some name, none⟩, rest)
  | .tag t :: rest => (⟨none, some t⟩, rest)
  | rest => (⟨none, none⟩, rest)

/-- There are none. -/
def isEmpty (p : Properties) : Bool := p.name?.isNone && p.tag?.isNone

/-- What the tag stands for, if there is one; fails if its handle is not known. -/
def resolve? (handles : Handles) (p : Properties) : Option (Option String) :=
  match p.tag? with
  | none => some none
  | some t => (t.resolve? handles).map some

end Properties

/-- The tag of a scalar. A lone exclamation mark leaves it to the scalar. -/
def scalarTag? (tag? : Option String) : Option String := tag?.filter (· != "!")

/-! ## Nodes -/

/-- Nothing is written for an item of a sequence without brackets. -/
def endsItem : List Token → Bool
  | .blockEntry :: _ => true
  | .blockEnd :: _ => true
  | _ => false

/-- Nothing is written for a key or a value of a mapping without brackets. -/
def endsField : List Token → Bool
  | .key :: _ => true
  | .value :: _ => true
  | .blockEnd :: _ => true
  | _ => false

/-- Nothing is written for a value within brackets. -/
def endsFlow : List Token → Bool
  | .flowEntry :: _ => true
  | .flowSequenceEnd :: _ => true
  | .flowMappingEnd :: _ => true
  | _ => false

/-- Nothing is written for a key within brackets, which are square or braces. -/
def endsKey (square : Bool) : List Token → Bool
  | .value :: _ => true
  | .flowEntry :: _ => true
  | .flowSequenceEnd :: _ => square
  | .flowMappingEnd :: _ => !square
  | _ => false

mutual

/-- A node. Without brackets a sequence or a mapping is a block; where `flush` holds, the items of
a sequence may stand at the column of the mapping around it. -/
def node? (handles : Handles) : Nat → (block flush : Bool) → List Token → Option Found
  | 0, _, _, _ => none
  | bound + 1, block, flush, tokens =>
    match tokens with
    | .alias name :: rest => some (.alias name, rest)
    | tokens =>
      let (p, rest) := Properties.take tokens
      match p.resolve? handles with
      | none => none
      | some tag? =>
        match rest, block, flush with
        | .scalar plain text :: rest, _, _ =>
          some (.scalar p.name? (scalarTag? tag?) plain text, rest)
        | .flowSequenceStart :: rest, _, _ =>
          (flowItems? handles bound true rest).map fun (l, rest) => (.sequence p.name? tag? l, rest)
        | .flowMappingStart :: rest, _, _ =>
          (flowEntries? handles bound true rest).map
            fun (l, rest) => (.mapping p.name? tag? l, rest)
        | .blockSequenceStart :: rest, true, _ =>
          (items? handles bound rest).map fun (l, rest) => (.sequence p.name? tag? l, rest)
        | .blockMappingStart :: rest, true, _ =>
          (entries? handles bound rest).map fun (l, rest) => (.mapping p.name? tag? l, rest)
        | .blockEntry :: _, _, true =>
          (flushItems? handles bound rest).map fun (l, rest) => (.sequence p.name? tag? l, rest)
        | rest, _, _ => if p.isEmpty then none else some (.scalar p.name? tag? true "", rest)

/-- The items of a block. -/
def items? (handles : Handles) : Nat → List Token → Option (List (Node String) × List Token)
  | 0, _ => none
  | bound + 1, tokens =>
    match tokens with
    | .blockEntry :: rest =>
      match if endsItem rest then some (.absent, rest) else node? handles bound true false rest with
      | none => none
      | some (n, rest) => (items? handles bound rest).map fun (l, rest) => (n :: l, rest)
    | .blockEnd :: rest => some ([], rest)
    | _ => none

/-- The items at the column of the mapping around them. -/
def flushItems? (handles : Handles) : Nat → List Token → Option (List (Node String) × List Token)
  | 0, _ => none
  | bound + 1, tokens =>
    match tokens with
    | .blockEntry :: rest =>
      match
        if endsItem rest || endsField rest then some (.absent, rest)
        else node? handles bound true false rest with
      | none => none
      | some (n, rest) => (flushItems? handles bound rest).map fun (l, rest) => (n :: l, rest)
    | rest => some ([], rest)

/-- A key or a value of a block. -/
def field? (handles : Handles) : Nat → List Token → Option Found
  | 0, _ => none
  | bound + 1, tokens =>
    if endsField tokens then some (.absent, tokens) else node? handles bound true true tokens

/-- The entries of a block. A key may have no value behind it. -/
def entries? (handles : Handles) :
    Nat → List Token → Option (List (Node String × Node String) × List Token)
  | 0, _ => none
  | bound + 1, tokens =>
    match tokens with
    | .key :: rest =>
      match field? handles bound rest with
      | none => none
      | some (k, .value :: rest) =>
        match field? handles bound rest with
        | none => none
        | some (v, rest) => (entries? handles bound rest).map fun (l, rest) => ((k, v) :: l, rest)
      | some (k, rest) =>
        (entries? handles bound rest).map fun (l, rest) => ((k, .absent) :: l, rest)
    | .blockEnd :: rest => some ([], rest)
    | _ => none

/-- A value within brackets, if the colon before it is there. -/
def flowValue? (handles : Handles) : Nat → List Token → Option Found
  | 0, _ => none
  | bound + 1, tokens =>
    match tokens with
    | .value :: rest =>
      if endsFlow rest then some (.absent, rest) else node? handles bound false false rest
    | rest => some (.absent, rest)

/-- A key behind its token within brackets. Where it is not written between square brackets, the
token behind it is passed over, too. -/
def flowKey? (handles : Handles) : Nat → (square : Bool) → List Token → Option Found
  | 0, _, _ => none
  | bound + 1, square, tokens =>
    if endsKey square tokens then some (.absent, if square then tokens.drop 1 else tokens)
    else node? handles bound false false tokens

/-- An entry behind the token of a key within brackets. -/
def flowEntry? (handles : Handles) :
    Nat → (square : Bool) → List Token → Option ((Node String × Node String) × List Token)
  | 0, _, _ => none
  | bound + 1, square, tokens =>
    match flowKey? handles bound square tokens with
    | none => none
    | some (k, rest) => (flowValue? handles bound rest).map fun (v, rest) => ((k, v), rest)

/-- The items between square brackets. A key with a value is an item, too. -/
def flowItems? (handles : Handles) :
    Nat → (first : Bool) → List Token → Option (List (Node String) × List Token)
  | 0, _, _ => none
  | bound + 1, first, tokens =>
    match first, tokens with
    | _, .flowSequenceEnd :: rest => some ([], rest)
    | false, .flowEntry :: rest => flowItems? handles bound true rest
    | false, _ => none
    | true, .key :: rest =>
      match flowEntry? handles bound true rest with
      | none => none
      | some (e, rest) =>
        (flowItems? handles bound false rest).map fun (l, rest) =>
          (.mapping none none [e] :: l, rest)
    | true, tokens =>
      match node? handles bound false false tokens with
      | none => none
      | some (n, rest) => (flowItems? handles bound false rest).map fun (l, rest) => (n :: l, rest)

/-- The entries between braces. A node that is no key has no value. -/
def flowEntries? (handles : Handles) :
    Nat → (first : Bool) → List Token → Option (List (Node String × Node String) × List Token)
  | 0, _, _ => none
  | bound + 1, first, tokens =>
    match first, tokens with
    | _, .flowMappingEnd :: rest => some ([], rest)
    | false, .flowEntry :: rest => flowEntries? handles bound true rest
    | false, _ => none
    | true, .key :: rest =>
      match flowEntry? handles bound false rest with
      | none => none
      | some (e, rest) =>
        (flowEntries? handles bound false rest).map fun (l, rest) => (e :: l, rest)
    | true, tokens =>
      match node? handles bound false false tokens with
      | none => none
      | some (n, rest) =>
        (flowEntries? handles bound false rest).map fun (l, rest) => ((n, .absent) :: l, rest)

end

/-! ## Documents -/

/-- The versions of the language that are read. -/
def isKnownVersion (major minor : Nat) : Bool := major == 1 && (minor == 1 || minor == 2)

/-- The handles that the directives before a document define, and the tokens behind its mark. -/
def directives? (versioned : Bool) (handles : Handles) :
    List Token → Option (Handles × List Token)
  | .directive (.version major minor) :: rest =>
    if versioned || !isKnownVersion major minor then none else directives? true handles rest
  | .directive (.tag handle start) :: rest =>
    if (handles.lookup handle).isSome then none
    else directives? versioned ((handle, start) :: handles) rest
  | .documentStart :: rest => some (handles ++ Handles.standard, rest)
  | _ => none

/-- A document begins with a mark. -/
def isMarked : List Token → Bool
  | .directive _ :: _ => true
  | .documentStart :: _ => true
  | _ => false

/-- A document has no content. -/
def isBare : List Token → Bool
  | [] => true
  | .documentEnd :: _ => true
  | tokens => isMarked tokens

/-- Only marks for the end of the document follow. -/
def endsWell (tokens : List Token) : Bool :=
  tokens.all fun
    | .documentEnd => true
    | _ => false

/-- The root of the first document. -/
def root? (tokens : List Token) : Option Found :=
  let bound := 4 * tokens.length + 4
  if tokens.isEmpty then some (.absent, [])
  else if isMarked tokens then
    match directives? false [] tokens with
    | none => none
    | some (handles, rest) =>
      if isBare rest then some (.absent, rest) else node? handles bound true false rest
  else node? .standard bound true false tokens

/-- **The one document that tokens denote.** Without any it is an absent node. -/
def Node.ofTokens? (tokens : List Token) : Option (Node String) :=
  match root? tokens with
  | some (n, rest) => if endsWell rest then some n else none
  | none => none

end Reconfig.Yaml
