import VendorCss.Css.Sheet.Parser
import VendorCss.Proofs.Forest.Basic

/-!
# Sheets without positions

The reader notes where each node started and decides nothing by it. So two readers that differ in positions only
(`SheetReader.unplaced`) read the same tokens into sheets that differ in positions only (`unplaced_finish_foldl`).
-/

namespace VendorCss

/-! ## Without positions -/

/-- A node without the position that it was read at. -/
def Node.unplaced (n : Node) : Node := { n with source := none }

/-- A run without positions. -/
def Forest.unplaced : Forest → Forest
  | .nil => .nil
  | .cons id node kids rest => .cons id node.unplaced kids.unplaced rest.unplaced

/-- A sheet without positions: what it says, with its numbers and its spacing. -/
def Sheet.unplaced (s : Sheet) : Sheet := { s with runs := s.runs.map Forest.unplaced }

/-- A frame without positions. -/
def Frame.unplaced (f : Frame) : Frame :=
  { f with
    node := f.node.unplaced
    kids := f.kids.unplaced
    statement := f.statement.map fun (text, _) => (text, .start) }

/-- A reader without positions. -/
def SheetReader.unplaced (r : SheetReader) : SheetReader :=
  { r with position := .start, frame := r.frame.unplaced, outer := r.outer.map Frame.unplaced }

@[simp] theorem Node.unplaced_unplaced (n : Node) : n.unplaced.unplaced = n.unplaced := rfl

@[simp] theorem Forest.unplaced_unplaced (f : Forest) : f.unplaced.unplaced = f.unplaced := by
  induction f with
  | nil => rfl
  | cons i n k r ihk ihr => rw [unplaced, unplaced, ihk, ihr, Node.unplaced_unplaced]

@[simp] theorem Forest.unplaced_append (f g : Forest) : (f ++ g).unplaced = f.unplaced ++ g.unplaced := by
  induction f with
  | nil => rfl
  | cons i n k r _ ih => rw [cons_append, unplaced, ih]; rfl

@[simp] theorem Forest.unplaced_tree (i : Nat) (n : Node) (k : Forest) :
    (tree i n k).unplaced = tree i n.unplaced k.unplaced := rfl

@[simp] theorem Frame.unplaced_unplaced (f : Frame) : f.unplaced.unplaced = f.unplaced := by
  obtain ⟨id, node, kids, pending, statement, semicolon⟩ := f
  cases statement <;> simp [unplaced]

/-- A block ends in the same way at any position. -/
theorem Frame.unplaced_close (f : Frame) (next : Nat) :
    (f.close next).1.unplaced = (f.unplaced.close next).1.unplaced ∧ (f.close next).2 = (f.unplaced.close next).2 := by
  cases hs : f.statement <;> simp [close, push, unplaced, hs] <;> first | rfl | exact ⟨rfl, rfl⟩

theorem Frame.close_congr {f g : Frame} (h : f.unplaced = g.unplaced) (next : Nat) :
    (f.close next).1.unplaced = (g.close next).1.unplaced ∧ (f.close next).2 = (g.close next).2 := by
  obtain ⟨hf, hfnext⟩ := f.unplaced_close next
  obtain ⟨hg, hgnext⟩ := g.unplaced_close next
  rw [hf, hfnext, hg, hgnext, h]
  exact ⟨rfl, rfl⟩

theorem Frame.unplaced_into (f outer : Frame) :
    (f.into outer).unplaced = (f.unplaced.into outer.unplaced).unplaced := by
  cases hs : outer.statement <;> simp [into, unplaced, hs]

namespace SheetReader

theorem unplaced_skip (r : SheetReader) (t : Token) : (r.skip t).unplaced = (r.unplaced.skip t).unplaced := by
  cases hs : r.frame.statement <;> simp [skip, unplaced, Frame.unplaced, hs, Function.comp_def]

theorem unplaced_extend (r : SheetReader) (t : Token) : (r.extend t).unplaced = (r.unplaced.extend t).unplaced := by
  cases hs : r.frame.statement <;> simp [extend, unplaced, Frame.unplaced, hs, Function.comp_def]

theorem unplaced_openBlock (r : SheetReader) (t : Token) :
    (r.openBlock t).unplaced = (r.unplaced.openBlock t).unplaced := by
  have he := r.unplaced_extend t
  have htext : (r.unplaced.frame.statement.getD ([], r.unplaced.position)).1 =
      (r.frame.statement.getD ([], r.position)).1 := by
    cases hs : r.frame.statement <;> simp [unplaced, Frame.unplaced, hs]
  unfold openBlock
  dsimp only
  rw [htext]
  split
  · exact he
  · simp [unplaced, Frame.unplaced, Function.comp_def]
    rfl

/-- Two readers that differ in positions only go on to differ in positions only. -/
theorem unplaced_step (r : SheetReader) (t : Token) : (r.step t).unplaced = (r.unplaced.step t).unplaced := by
  have hposition (r : SheetReader) (position : Position) :
      ({ r with position } : SheetReader).unplaced = r.unplaced := rfl
  have hextend := r.unplaced_extend t
  unfold step
  refine (hposition _ _).trans (Eq.trans ?_ (hposition _ _).symm)
  have hskipping : r.unplaced.skipping = r.skipping := rfl
  rw [hskipping]
  by_cases hk : r.skipping = []
  · rw [hk, List.isEmpty_nil, Bool.not_true, if_neg Bool.false_ne_true, if_neg Bool.false_ne_true]
    have houter : r.unplaced.outer = r.outer.map Frame.unplaced := rfl
    cases hkind : t.kind with
    | openBracket b =>
      cases b with
      | curly => simpa using r.unplaced_openBlock t
      | paren | square => simpa using hextend
    | closeBracket b =>
      cases b with
      | curly =>
        cases ho : r.outer with
        | nil => simpa [houter, ho] using hextend
        | cons outer rest =>
          obtain ⟨hclose, hnext⟩ := r.frame.unplaced_close r.next
          have hinto : ((r.frame.close r.next).1.into outer).unplaced =
              ((r.unplaced.frame.close r.unplaced.next).1.into outer.unplaced).unplaced := by
            rw [Frame.unplaced_into, hclose, Frame.unplaced_into (r.unplaced.frame.close _).1, Frame.unplaced_unplaced]
            rfl
          have hrest : (rest.map Frame.unplaced).map Frame.unplaced = rest.map Frame.unplaced := by
            simp [Function.comp_def]
          simp only [houter, ho, List.map_cons]
          rw [unplaced, unplaced, hinto, hrest, hnext]
          rfl
      | paren | square => simpa using hextend
    | semicolon =>
      cases hs : r.frame.statement with
      | none => simp [unplaced, Frame.unplaced, hs, Function.comp_def]
      | some st =>
        simp [unplaced, Frame.unplaced, hs, Function.comp_def, Frame.push]
        rfl
    | blank =>
      cases hs : r.frame.statement with
      | none => simp [unplaced, Frame.unplaced, hs, Function.comp_def]
      | some st => simpa [unplaced, Frame.unplaced, hs, Function.comp_def] using hextend
    | comment inside =>
      cases hs : r.frame.statement with
      | none =>
        simp [unplaced, Frame.unplaced, hs, Function.comp_def, Frame.push]
        rfl
      | some st => simpa [unplaced, Frame.unplaced, hs, Function.comp_def] using hextend
    | colon | comma | slash | string | function _ | word => simpa [hkind] using hextend
  · have hne : (!r.skipping.isEmpty) = true := by simpa using hk
    rw [if_pos hne, if_pos hne]
    exact r.unplaced_skip t

theorem step_congr {r r' : SheetReader} (h : r.unplaced = r'.unplaced) (t : Token) :
    (r.step t).unplaced = (r'.step t).unplaced := by
  rw [unplaced_step, h, ← unplaced_step]

/-- The same tokens after each other. -/
theorem unplaced_foldl {r r' : SheetReader} (h : r.unplaced = r'.unplaced) (ts : List Token) :
    (ts.foldl step r).unplaced = (ts.foldl step r').unplaced := by
  induction ts generalizing r r' with
  | nil => exact h
  | cons t ts ih => exact ih (step_congr h t)

theorem unplaced_closeAll {f g : Frame} (hf : f.unplaced = g.unplaced) {fs gs : List Frame}
    (hs : fs.map Frame.unplaced = gs.map Frame.unplaced) (next : Nat) :
    (closeAll next f fs).1.unplaced = (closeAll next g gs).1.unplaced ∧
      (closeAll next f fs).2 = (closeAll next g gs).2 := by
  induction fs generalizing f g gs next with
  | nil =>
    obtain rfl := List.map_eq_nil_iff.1 hs.symm
    exact Frame.close_congr hf next
  | cons f' fs ih =>
    cases gs with
    | nil => cases hs
    | cons g' gs =>
      obtain ⟨hhead, htail⟩ := List.cons.inj hs
      obtain ⟨hclose, hnext⟩ := Frame.close_congr hf next
      have hinto : ((f.close next).1.into f').unplaced = ((g.close next).1.into g').unplaced := by
        rw [Frame.unplaced_into, hclose, hhead, ← Frame.unplaced_into]
      have hrest := ih hinto htail (f.close next).2
      rw [closeAll, closeAll]
      dsimp only
      rw [← hnext]
      exact hrest

/-- Readers that differ in positions only read sheets that differ in positions only. -/
theorem unplaced_finish {r r' : SheetReader} (h : r.unplaced = r'.unplaced) :
    r.finish.unplaced = r'.finish.unplaced := by
  have hnext : r.unplaced.next = r'.unplaced.next := by rw [h]
  have hframe : r.unplaced.frame = r'.unplaced.frame := by rw [h]
  have houter : r.unplaced.outer = r'.unplaced.outer := by rw [h]
  change r.next = r'.next at hnext
  obtain ⟨hroot, hlast⟩ := unplaced_closeAll hframe houter r'.next
  have hnode := congrArg Frame.node hroot
  have hkids := congrArg Frame.kids hroot
  unfold finish
  dsimp only
  rw [hnext, hlast]
  simp only [Sheet.ofRoot, Sheet.unplaced, List.map_cons, List.map_nil, Forest.unplaced_tree]
  exact congrArg (fun root => (⟨[root], _⟩ : Sheet)) (congr (congrArg (Forest.tree Sheet.rootId) hnode) hkids)

end SheetReader

end VendorCss
