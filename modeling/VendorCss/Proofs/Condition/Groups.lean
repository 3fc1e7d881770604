import VendorCss.Proofs.Condition

/-!
# The groups of a condition

A condition is read with a stack of groups that are open. A group that is closed has an empty run of text put after it, so
in what is read a group stands directly before a run of text (`IsSpaced`). Groups that the text leaves open are closed at
its end; there is one for each parenthesis that is open there (`openAfter`), each inside the one before, and each the last
piece of what holds it (`IsOpen`). Printing closes these groups and changes nothing else, and normalizing does not show
(`ofText_prints`).
-/

namespace VendorCss.ConditionPiece

variable {ps qs : List ConditionPiece} {outer : List (List ConditionPiece)} {r : Reader} {n : Nat}

/-! ## Runs after groups -/

/-- Every group, inside groups as well, stands directly before a run of text. -/
inductive IsSpaced : List ConditionPiece → Prop
  | nil : IsSpaced []
  | text {t : Text} {ps : List ConditionPiece} (h : IsSpaced ps) : IsSpaced (text t :: ps)
  | group {inside : List ConditionPiece} {t : Text} {ps : List ConditionPiece} (hinside : IsSpaced inside)
      (h : IsSpaced ps) : IsSpaced (group inside :: text t :: ps)

/-- The same but for `n` groups, each of which holds the next one: they stand last, before nothing. -/
inductive IsOpen : Nat → List ConditionPiece → Prop
  | closed {ps : List ConditionPiece} (h : IsSpaced ps) : IsOpen 0 ps
  | opened {n : Nat} {ps inside : List ConditionPiece} (h : IsSpaced ps) (hinside : IsOpen n inside) :
      IsOpen (n + 1) (ps ++ [group inside])

theorem IsSpaced.append (hp : IsSpaced ps) (hq : IsSpaced qs) : IsSpaced (ps ++ qs) := by
  induction hp with
  | nil => exact hq
  | text _ ih => exact .text ih
  | group hinside _ _ ih => exact .group hinside ih

/-- The pieces that a reader holds are spaced, whatever the run at their end is going to be. -/
structure Reader.IsSpaced (r : Reader) : Prop where
  items : ∀ t, ConditionPiece.IsSpaced (text t :: r.items).reverse
  outer : ∀ before ∈ r.outer, ConditionPiece.IsSpaced before.reverse

theorem Reader.IsSpaced.step (h : r.IsSpaced) (c : Char) : (r.step c).IsSpaced := by
  unfold Reader.step
  split
  · exact ⟨fun t => .text .nil, List.forall_mem_cons.2 ⟨h.items r.run, h.outer⟩⟩
  · rename_i before outer houter
    obtain ⟨hbefore, houter⟩ := List.forall_mem_cons.1 (houter ▸ h.outer)
    refine ⟨fun t => ?_, houter⟩
    rw [List.reverse_cons, List.reverse_cons, List.append_assoc]
    exact hbefore.append (.group (h.items r.run) .nil)
  · exact ⟨h.items, h.outer⟩

theorem Reader.IsSpaced.foldl (h : r.IsSpaced) (t : Text) : (t.foldl Reader.step r).IsSpaced := by
  induction t generalizing r with
  | nil => exact h
  | cons c t ih => exact ih (h.step c)

theorem IsOpen.close (h : IsOpen n ps) (houter : ∀ before ∈ outer, IsSpaced before.reverse) :
    IsOpen (n + outer.length) (close ps outer) := by
  induction outer generalizing n ps with
  | nil => exact h
  | cons before outer ih =>
    obtain ⟨hbefore, houter⟩ := List.forall_mem_cons.1 houter
    rw [ConditionPiece.close, List.reverse_cons, List.length_cons, Nat.add_comm outer.length, ← Nat.add_assoc]
    exact ih (.opened hbefore h) houter

theorem isOpen_ofText (t : Text) : IsOpen (openAfter 0 t) (ofText t) := by
  have hstart : Reader.IsSpaced {} := ⟨fun _ => .text .nil, List.forall_mem_nil _⟩
  have hend := hstart.foldl t
  have hopen : (t.foldl Reader.step {}).outer.length = openAfter 0 t := Reader.length_outer_foldl t {}
  have hclose := (IsOpen.closed (hend.items (t.foldl Reader.step {}).run)).close hend.outer
  rwa [Nat.zero_add, hopen] at hclose

/-- What is read from a text prints as the text with one more parenthesis for each that it leaves open. Only the groups
that the end of the text closes have no run of text after them. Normalizing leaves what is printed as it is. -/
theorem ofText_prints (t : Text) :
    renderAll (ofText t) = t ++ List.replicate (openAfter 0 t) ')' ∧
      IsOpen (openAfter 0 t) (ofText t) ∧
      renderAll (normalize (ofText t)) = renderAll (ofText t) :=
  ⟨renderAll_ofText t, isOpen_ofText t, renderAll_normalize _⟩

/-- A parenthesis that closes nothing is text, and groups that are left open are closed. -/
example : (ofText "a) (b (c").map render = (["a) ", "(b (c))"] : List Text) := by decide

end VendorCss.ConditionPiece
