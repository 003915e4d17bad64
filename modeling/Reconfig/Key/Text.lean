import Reconfig.Key.Basic

/-!
# Flat keys

The text of a path: its segments joined by points, a selector in braces. Points between braces
belong to the identity, so that file names can be identities, as in `logging.{/var/log/a.log}.any`.
A brace opens only at the start of a segment; one that is never closed takes all that follows into
its segment.

* `Key.tokens`: the texts between the separating points;
* `Segment.ofToken`, `Segment.render`, `Path.parse`, `Path.render`;
* **`Segment.render_ofToken`**: the text of a segment is the token it was read from.
-/

namespace Reconfig

/-- The segment of a token: a selector if it stands in braces, else a field. -/
def Segment.ofToken : List Char → Segment
  | '{' :: rest =>
    if rest.getLast? = some '}' then .selector (String.ofList rest.dropLast)
    else .field (String.ofList ('{' :: rest))
  | token => .field (String.ofList token)

/-- The text of a segment. -/
def Segment.render : Segment → List Char
  | .field name => name.toList
  | .selector id => '{' :: (id.toList ++ ['}'])

/-- **The text of a segment is the token it was read from.** -/
theorem Segment.render_ofToken (token : List Char) : (Segment.ofToken token).render = token := by
  unfold ofToken
  split
  · rename_i rest
    split
    · rename_i h
      have hne : rest ≠ [] := by rintro rfl; simp at h
      have hl : rest.getLast hne = '}' := by
        have := List.getLast?_eq_some_getLast hne
        rw [this] at h
        exact Option.some.inj h
      simp only [render, String.toList_ofList, List.cons.injEq, true_and]
      rw [← hl]
      exact List.dropLast_concat_getLast hne
    · simp [render]
  · simp [render]

namespace Key

/-- The tokens of the rest of a key; `inBraces` holds within a brace span, and `before` is the
reverse of the current token so far. -/
def tokensFrom (inBraces : Bool) (before : List Char) : List Char → List (List Char)
  | [] => [before.reverse]
  | c :: rest =>
    if c = '{' ∧ before = [] then tokensFrom true [c] rest
    else if c = '}' ∧ inBraces then tokensFrom false (c :: before) rest
    else if c = '.' ∧ !inBraces then before.reverse :: tokensFrom false [] rest
    else tokensFrom inBraces (c :: before) rest

/-- The texts between the separating points of a key; the empty key has none. -/
def tokens (key : String) : List (List Char) :=
  match key.toList with
  | [] => []
  | s => tokensFrom false [] s

end Key

/-- The path of a key. -/
def Path.parse (key : String) : Path := (Key.tokens key).map Segment.ofToken

/-- The key of a path. -/
def Path.render (p : Path) : String :=
  String.ofList (List.intercalate ['.'] (p.map Segment.render))

example : Path.parse "logging.\x7b/var/log/a.log\x7d.any" =
    [.field "logging", .selector "/var/log/a.log", .field "any"] := by decide
example : Path.parse "a.\x7bb.c" = [.field "a", .field "\x7bb.c"] := by decide

end Reconfig
