/-!
# Similar names

An unknown long option is answered with the known long name most like it, if any is like it
enough. Likeness is the Jaro similarity of the two names as character sequences: with `m`
characters matched (equal characters no further apart than half the longer length, less
one) and `t` half the number of matched characters that come in a different order,

  `jaro a b = (m / |a| + m / |b| + (m - t) / m) / 3`,

computed in binary floating point. A name is suggested when its similarity is above `0.7`;
among several, the most similar one, and among equally similar ones the last declared.
-/

namespace Markup.Cli

/-- The character at a position, or a blank past the end. -/
def charAt (s : List Char) (i : Nat) : Char :=
  s.getD i ' '

/-- Claims, for each character of `a` in order, the first unclaimed equal character of `b`
within the window around its position; returns which characters of `a` and of `b` are
claimed. -/
def matchFlags (a b : List Char) : List Bool × List Bool :=
  let window := max a.length b.length / 2 - 1
  (List.range a.length).foldl (fun (flags : List Bool × List Bool) i =>
    let lo := i - window
    let hi := min b.length (i + window + 1)
    let free (j : Nat) : Bool := charAt b j == charAt a i && !flags.2.getD j true
    match (List.range' lo (hi - lo)).find? free with
    | some j => (flags.1.set i true, flags.2.set j true)
    | none => flags)
    (List.replicate a.length false, List.replicate b.length false)

/-- The characters whose flag is set, in order. -/
def claimed (s : List Char) (flags : List Bool) : List Char :=
  ((s.zip flags).filter (·.2)).map (·.1)

/-- The number of matched characters and the number of transpositions. -/
def matchCounts (a b : List Char) : Nat × Nat :=
  let (fa, fb) := matchFlags a b
  let ca := claimed a fa
  let cb := claimed b fb
  let crossed := ((ca.zip cb).filter fun p => p.1 != p.2).length
  (ca.length, crossed / 2)

/-- The Jaro similarity of two names. -/
def jaro (a b : String) : Float :=
  let a := a.toList
  let b := b.toList
  if a.isEmpty && b.isEmpty then 1.0
  else if a.isEmpty || b.isEmpty then 0.0
  else
    let (m, t) := matchCounts a b
    if m == 0 then 0.0
    else
      let mf := m.toFloat
      (mf / a.length.toFloat + mf / b.length.toFloat + (m - t).toFloat / mf) / 3.0

/-- The most similar of the candidates above the threshold; the last of equals. -/
def mostSimilar (name : String) (candidates : List String) : Option String :=
  (candidates.foldl (fun (best : Option (Float × String)) c =>
    let score := jaro name c
    if score > 0.7 then
      match best with
      | some (s, _) => if score ≥ s then some (score, c) else best
      | none => some (score, c)
    else best) none).map (·.2)

end Markup.Cli
