import Mathlib.Data.List.Range
import VendorCss.Css.Sheet.Parser
import VendorCss.Proofs.Sheet.Whole

/-!
# The numbers of a parsed sheet

The reader numbers nodes in the order of the text: the frames, outermost first, hold the numbers given so far, one after
the other (`step_numbers`). So a parsed sheet is numbered, and in document order (`ids_parse`).
-/

namespace VendorCss

namespace SheetReader

/-- The numbers that frames hold, outermost first. -/
def numbersWithin (f : Frame) : (outer : List Frame) → List Nat
  | [] => f.id :: f.kids.ids
  | g :: outer => numbersWithin g outer ++ f.id :: f.kids.ids

/-- The frames hold all numbers given so far, in order. -/
def IsInOrder (f : Frame) (outer : List Frame) (next : Nat) : Prop := numbersWithin f outer = List.range next

theorem numbersWithin_append (f f' : Frame) {more : List Nat} (hid : f'.id = f.id)
    (hk : f'.kids.ids = f.kids.ids ++ more) (outer : List Frame) :
    numbersWithin f' outer = numbersWithin f outer ++ more := by
  cases outer <;> simp [numbersWithin, hid, hk]

theorem IsInOrder.congr {f : Frame} {outer : List Frame} {next : Nat} (h : IsInOrder f outer next) (f' : Frame)
    (hid : f'.id = f.id) (hk : f'.kids = f.kids) : IsInOrder f' outer next := by
  have happend := numbersWithin_append f f' hid (by rw [hk, List.append_nil] : f'.kids.ids = f.kids.ids ++ []) outer
  rw [IsInOrder, happend, List.append_nil]
  exact h

/-- A new child has the next number. -/
theorem IsInOrder.push {f f' : Frame} {outer : List Frame} {next : Nat} {n : Node} (h : IsInOrder f outer next)
    (hid : f'.id = f.id) (hk : f'.kids = f.kids ++ .tree next n .nil) : IsInOrder f' outer (next + 1) := by
  have hids : f'.kids.ids = f.kids.ids ++ [next] := by
    rw [hk, Forest.ids_append]
    rfl
  rw [IsInOrder, numbersWithin_append f f' hid hids, h, List.range_succ]

theorem IsInOrder.close {f : Frame} {outer : List Frame} {next : Nat} (h : IsInOrder f outer next) :
    IsInOrder (f.close next).1 outer (f.close next).2 := by
  unfold Frame.close
  cases f.statement with
  | none => exact h.congr _ rfl rfl
  | some st => exact h.push rfl rfl

/-- A closed frame keeps its place after what the frame around it holds. -/
theorem IsInOrder.into {f g : Frame} {outer : List Frame} {next : Nat} (h : IsInOrder f (g :: outer) next) :
    IsInOrder (f.into g) outer next := by
  have hids : (f.into g).kids.ids = g.kids.ids ++ f.id :: f.kids.ids := by
    simp [Frame.into, Forest.tree, Forest.ids]
  rw [IsInOrder, numbersWithin_append g (f.into g) rfl hids]
  exact h

theorem IsInOrder.closeAll {f : Frame} {outer : List Frame} {next : Nat} (h : IsInOrder f outer next) :
    IsInOrder (closeAll next f outer).1 [] (closeAll next f outer).2 := by
  induction outer generalizing f next with
  | nil => exact h.close
  | cons g outer ih => exact ih h.close.into

/-! ## Steps -/

theorem openBlock_numbers {r : SheetReader} (h : IsInOrder r.frame r.outer r.next) (t : Token) :
    IsInOrder (r.openBlock t).frame (r.openBlock t).outer (r.openBlock t).next := by
  unfold openBlock
  dsimp only
  split
  · unfold extend
    dsimp only
    split <;> exact h.congr _ rfl rfl
  · rw [IsInOrder, List.range_succ, ← h]
    let outer : Frame := { r.frame with statement := none, pending := [], semicolon := false }
    have houter : numbersWithin outer r.outer = numbersWithin r.frame r.outer := (h.congr outer rfl rfl).trans h.symm
    exact congrArg (· ++ [r.next]) houter

theorem step_numbers {r : SheetReader} (h : IsInOrder r.frame r.outer r.next) (t : Token) :
    IsInOrder (r.step t).frame (r.step t).outer (r.step t).next := by
  unfold step
  dsimp only
  split
  · exact h.congr _ rfl rfl
  · split
    case h_1 => exact h.congr _ rfl rfl
    case h_2 => exact h.push rfl rfl
    case h_3 => exact h.congr _ rfl rfl
    case h_4 => exact h.push rfl rfl
    case h_5 => exact openBlock_numbers h t
    case h_6 outer rest _ ho =>
      rw [ho] at h
      exact h.close.into
    case h_7 =>
      unfold extend
      dsimp only
      split <;> exact h.congr _ rfl rfl

theorem foldl_step_numbers (ts : List Token) {r : SheetReader} (h : IsInOrder r.frame r.outer r.next) :
    let r' := ts.foldl step r
    IsInOrder r'.frame r'.outer r'.next := by
  induction ts generalizing r with
  | nil => exact h
  | cons t ts ih => exact ih (step_numbers h t)

end SheetReader

namespace Sheet

theorem ids_ofRoot (root : Node) (kids : Forest) (next : Nat) : (ofRoot root kids next).ids = rootId :: kids.ids := by
  simp [ids, whole, ofRoot, joinRuns, Forest.tree, Forest.ids]

theorem head_of_cons_eq_range {i n : Nat} {is : List Nat} (h : i :: is = List.range n) : i = 0 := by
  cases n with
  | zero => cases h
  | succ n =>
    rw [List.range_succ_eq_map] at h
    exact (List.cons.inj h).1

/-- The numbers of a parsed sheet, in document order. -/
theorem ids_parse (t : Text) : (parse t).ids = List.range (parse t).next := by
  let r := (tokens t).foldl SheetReader.step .start
  have hstart : SheetReader.IsInOrder SheetReader.start.frame SheetReader.start.outer SheetReader.start.next := rfl
  have h : (SheetReader.closeAll r.next r.frame r.outer).1.id ::
      (SheetReader.closeAll r.next r.frame r.outer).1.kids.ids =
        List.range (SheetReader.closeAll r.next r.frame r.outer).2 :=
    (SheetReader.foldl_step_numbers (tokens t) hstart).closeAll
  have hparse : parse t = ofRoot (SheetReader.closeAll r.next r.frame r.outer).1.node
      (SheetReader.closeAll r.next r.frame r.outer).1.kids (SheetReader.closeAll r.next r.frame r.outer).2 := rfl
  -- the outermost frame is that of the root, since the first number is its own
  have hroot : (SheetReader.closeAll r.next r.frame r.outer).1.id = rootId := head_of_cons_eq_range h
  rw [hroot] at h
  rw [hparse, ids_ofRoot, h]
  rfl

theorem isNumbered_parse (t : Text) : (parse t).IsNumbered where
  nodup := by
    rw [ids_parse]
    exact List.nodup_range
  lt_next := fun i hi => by
    rw [ids_parse] at hi
    exact List.mem_range.1 hi

end Sheet

end VendorCss
