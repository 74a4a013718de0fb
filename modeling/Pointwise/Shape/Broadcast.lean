import Pointwise.Shape.Basic

/-!
# Broadcasting

Shapes broadcast together if, aligned on their last dimensions, the sizes other than one agree in
each place. The result, called the *master*, has that size in each place.

## Main definitions

* `Shape.mergeDim`, `Shape.merge` — one more shape of the same rank merged into a master.
* `Shape.broadcast` — the master of a list of shapes.

## Main results

* `Shape.length_merge` — merging keeps the rank of the master.
-/

set_option autoImplicit false

namespace Pointwise.Shape

/-- The common size of a place of the master and one of a shape, if there is one. -/
def mergeDim (master dim : Nat) : Option Nat :=
  if master = 1 then some dim
  else if dim = 1 ∨ dim = master then some master
  else none

/-- A shape merged into a master of the same rank. On a mismatch, the master as merged up to the
place of the mismatch. -/
def merge : Shape → Shape → Except Shape Shape
  | m :: master, d :: dims =>
    match mergeDim m d with
    | none => .error (m :: master)
    | some k =>
      match merge master dims with
      | .ok merged => .ok (k :: merged)
      | .error partly => .error (k :: partly)
  | master, _ => .ok master

/-- The master of a list of shapes, merged from the front. -/
def broadcast (shapes : List Shape) : Except Error Shape :=
  let rank := maxRank shapes
  shapes.foldlM (fun master shape =>
    match merge master (padTo rank shape) with
    | .ok merged => .ok merged
    | .error partly => .error (.shape (.broadcast partly shape)))
    (List.replicate rank 1)

/-- Merging keeps the rank of the master. -/
theorem length_merge {master dims merged : Shape} (h : merge master dims = .ok merged) :
    merged.length = master.length := by
  induction master generalizing dims merged with
  | nil =>
    simp only [merge, Except.ok.injEq] at h
    rw [← h]
  | cons m master ih =>
    cases dims with
    | nil =>
      simp only [merge, Except.ok.injEq] at h
      rw [← h]
    | cons d dims =>
      simp only [merge] at h
      cases hk : mergeDim m d with
      | none => simp [hk] at h
      | some k =>
        cases hm : merge master dims with
        | error partly => simp [hk, hm] at h
        | ok tail =>
          simp only [hk, hm, Except.ok.injEq] at h
          rw [← h, List.length_cons, List.length_cons, ih hm]

end Pointwise.Shape
