import Mathlib.Data.List.Chain
import VendorCss.Proofs.Component.Printing

/-!
# The normal form of components

Whatever a text says, its components are in normal form: words that follow each other are one word, white space that
follows white space is one space, and white space beside a divider, or at an end of the arguments of a function, belongs
to the divider or to the function (`allNormal_ofText`). The reader keeps this for what it has read so far
(`Reader.IsNormal.step`). White space joins a divider only once, so it matters that no blank token follows another
(`isChain_tokens`).
-/

namespace VendorCss

/-! ## Blank tokens -/

namespace Token

theorem isSpace_of_scan_eq {c : Char} {t : Text} {n : Nat} (h : scan c t = (.blank, n)) :
    n = (t.takeWhile isSpace).length := by
  have hread := readsAs_scan c t
  rw [h] at hread
  have hc : isSpace c = true := hread c List.mem_cons_self
  unfold scan at h
  rw [if_pos hc] at h
  exact (Prod.mk.inj h).2.symm

/-- A blank token ends before something else. -/
theorem isChain_tokensWithin (fuel : Nat) (t : Text) :
    (tokensWithin fuel t).IsChain fun x y => ¬(x.kind = .blank ∧ y.kind = .blank) := by
  fun_induction tokensWithin fuel t with
  | case1 | case2 => exact .nil
  | case3 fuel c t kind n hscan ih =>
    refine List.isChain_cons.2 ⟨?_, ih⟩
    rintro y hy ⟨hblank, hy'⟩
    obtain rfl : kind = .blank := hblank
    rw [isSpace_of_scan_eq hscan] at hy
    cases fuel with
    | zero => cases hy
    | succ fuel =>
      cases hrest : t.drop (t.takeWhile isSpace).length with
      | nil =>
        rw [hrest] at hy
        cases hy
      | cons d rest =>
        rw [hrest, tokensWithin] at hy
        have hkind : (scan d rest).1 = .blank := (congrArg Token.kind (Option.some.inj hy)).trans hy'
        have hread := readsAs_scan d rest
        unfold ReadsAs at hread
        rw [hkind] at hread
        have hd : isSpace d = true := hread d List.mem_cons_self
        have hdrop : t.dropWhile isSpace = d :: rest := by
          have hleft := @List.drop_left _ (t.takeWhile isSpace) (t.dropWhile isSpace)
          rw [List.takeWhile_append_dropWhile, hrest] at hleft
          exact hleft.symm
        have hnot := List.head?_dropWhile_not isSpace t
        rw [hdrop] at hnot
        exact absurd hd (Bool.eq_false_iff.1 hnot)

end Token

theorem isChain_tokens (t : Text) : (tokens t).IsChain fun x y => ¬(x.kind = .blank ∧ y.kind = .blank) :=
  Token.isChain_tokensWithin _ t

namespace Component

/-! ## The normal form -/

/-- Two components may be neighbours: they are not both words, nor both white space, nor white space and a divider. -/
def Fits : Component → Component → Prop
  | word _, word _ => False
  | space _, space _ => False
  | space _, div .. => False
  | div .., space _ => False
  | _, _ => True

/-- A function whose arguments fit together at every depth, with no white space at either end. -/
inductive IsNormal : Component → Prop
  | word (t : Text) : IsNormal (word t)
  | space (t : Text) : IsNormal (space t)
  | div (sign before after : Text) : IsNormal (div sign before after)
  | string (quote : Char) (t : Text) : IsNormal (string quote t)
  | comment (t : Text) : IsNormal (comment t)
  | function {name before after : Text} {args : List Component} (chain : args.IsChain Fits)
      (normal : ∀ c ∈ args, IsNormal c) (head : ∀ c ∈ args.head?, c.isSpace = false)
      (last : ∀ c ∈ args.getLast?, c.isSpace = false) : IsNormal (function name before after args)

/-- Components that fit together, each of them in normal form. -/
structure AllNormal (cs : List Component) : Prop where
  chain : cs.IsChain Fits
  normal : ∀ c ∈ cs, c.IsNormal

variable {c d : Component} {cs : List Component} {name t : Text}

theorem Fits.symm (h : Fits c d) : Fits d c := by
  cases c <;> cases d <;> exact h

namespace AllNormal

theorem nil : AllNormal [] := ⟨.nil, fun _ h => (List.not_mem_nil h).elim⟩

theorem tail (h : AllNormal (c :: cs)) : AllNormal cs := ⟨h.chain.tail, fun d hd => h.normal d (List.mem_cons_of_mem c hd)⟩

theorem fits_head (h : AllNormal (c :: cs)) : ∀ d ∈ cs.head?, Fits c d := (List.isChain_cons.1 h.chain).1

theorem cons (h : AllNormal cs) (hc : c.IsNormal) (hfits : ∀ d ∈ cs.head?, Fits c d) : AllNormal (c :: cs) :=
  ⟨List.isChain_cons.2 ⟨hfits, h.chain⟩, List.forall_mem_cons.2 ⟨hc, h.normal⟩⟩

theorem reverse (h : AllNormal cs) : AllNormal cs.reverse :=
  ⟨List.isChain_reverse.2 (h.chain.imp fun _ _ h => h.symm), fun c hc => h.normal c (List.mem_reverse.1 hc)⟩

end AllNormal

/-! ## What the reader puts together -/

theorem allNormal_pushWord (h : AllNormal cs) : AllNormal (pushWord t cs) := by
  unfold pushWord
  split
  · -- the word grows, which is nothing to its neighbour
    refine h.tail.cons (.word _) fun d hd => ?_
    have hfits := h.fits_head d hd
    cases d <;> exact hfits
  · rename_i hword
    refine h.cons (.word t) fun d hd => ?_
    obtain ⟨rest, rfl⟩ := List.head?_eq_some_iff.1 hd
    cases d with
    | word s => exact (hword s rest rfl).elim
    | _ => trivial

/-- The last component, if it is a divider, has no white space after it yet. -/
def EndsBare (cs : Reversed) : Prop := ∀ sign before after rest, cs = div sign before after :: rest → after = []

theorem allNormal_pushSpace (h : AllNormal cs) (hbare : EndsBare cs) : AllNormal (pushSpace t cs) := by
  unfold pushSpace
  split
  · rename_i sign before after rest
    obtain rfl := hbare sign before after rest rfl
    refine h.tail.cons (.div _ _ _) fun d hd => ?_
    have hfits := h.fits_head d hd
    cases d <;> exact hfits
  · refine h.tail.cons (.space _) fun d hd => ?_
    have hfits := h.fits_head d hd
    cases d <;> exact hfits
  · rename_i hdiv hspace
    refine h.cons (.space t) fun d hd => ?_
    obtain ⟨rest, rfl⟩ := List.head?_eq_some_iff.1 hd
    cases d with
    | div sign before after => exact (hdiv sign before after rest rfl).elim
    | space s => exact (hspace s rest rfl).elim
    | _ => trivial

theorem allNormal_pushDiv {sign : Text} (h : AllNormal cs) : AllNormal (pushDiv sign cs) := by
  unfold pushDiv
  split
  · -- what stood before the white space is neither white space nor a divider
    refine h.tail.cons (.div _ _ _) fun d hd => ?_
    have hfits := h.fits_head d hd
    cases d <;> first | exact hfits | trivial
  · rename_i hspace
    refine h.cons (.div _ _ _) fun d hd => ?_
    obtain ⟨rest, rfl⟩ := List.head?_eq_some_iff.1 hd
    cases d with
    | space s => exact (hspace s rest rfl).elim
    | _ => trivial

/-- What is neither a word nor white space nor a divider stands anywhere. -/
theorem AllNormal.cons_string (h : AllNormal cs) (quote : Char) (t : Text) : AllNormal (string quote t :: cs) :=
  h.cons (.string quote t) fun _ _ => trivial

theorem AllNormal.cons_comment (h : AllNormal cs) (t : Text) : AllNormal (comment t :: cs) :=
  h.cons (.comment t) fun _ _ => trivial

/-- White space at the end of arguments goes to the function. -/
theorem isNormal_ofArgs_end (before : Text) (h : AllNormal cs) (hhead : ∀ c ∈ cs.head?, c.isSpace = false) :
    (match cs.reverse with
      | space s :: ds => function name before s ds.reverse
      | _ => function name before [] cs).IsNormal := by
  have hreverse := h.reverse
  split
  · rename_i s ds hcs
    obtain rfl : cs = ds.reverse ++ [space s] := List.reverse_eq_cons_iff.1 hcs
    have hds := (hcs ▸ hreverse).tail
    refine .function hds.reverse.chain hds.reverse.normal (fun c hc => hhead c ?_) fun c hc => ?_
    · rw [List.head?_append, Option.mem_def.1 hc, Option.some_or]
      exact rfl
    · rw [List.getLast?_reverse] at hc
      have hfits := (hcs ▸ hreverse).fits_head c hc
      cases c <;> first | rfl | exact hfits.elim
  · rename_i hspace
    refine .function h.chain h.normal hhead fun c hc => ?_
    rw [← List.head?_reverse] at hc
    obtain ⟨rest, hrest⟩ := List.head?_eq_some_iff.1 hc
    cases c with
    | space s => exact (hspace s rest hrest).elim
    | _ => rfl

theorem isNormal_ofArgs (h : AllNormal cs) : (ofArgs name cs).IsNormal := by
  unfold ofArgs
  cases cs with
  | nil => exact isNormal_ofArgs_end [] h fun _ hc => nomatch hc
  | cons c cs =>
    cases c with
    | space s =>
      refine isNormal_ofArgs_end s h.tail fun d hd => ?_
      have hfits := h.fits_head d hd
      cases d <;> first | rfl | exact hfits.elim
    | _ => exact isNormal_ofArgs_end [] h fun d hd => by cases hd; rfl

theorem exists_ofArgs (name : Text) (cs : List Component) :
    ∃ before after args, ofArgs name cs = function name before after args := by
  unfold ofArgs
  dsimp only
  split
  all_goals split <;> exact ⟨_, _, _, rfl⟩

/-- The arguments of a function are among the components that it was put together from. -/
theorem mem_of_mem_args (hc : c ∈ (ofArgs name cs).args) : c ∈ cs := by
  have hend (before : Text) (ds : List Component)
      (hc : c ∈ (match ds.reverse with
        | space s :: es => function name before s es.reverse
        | _ => function name before [] ds).args) : c ∈ ds := by
    split at hc
    · rename_i s es hes
      rw [List.reverse_eq_cons_iff.1 hes]
      exact List.mem_append_left _ hc
    · exact hc
  unfold ofArgs at hc
  cases cs with
  | nil => exact hend [] [] hc
  | cons d cs =>
    cases d with
    | space s => exact List.mem_cons_of_mem _ (hend s cs hc)
    | _ => exact hend [] _ hc

theorem AllNormal.cons_ofArgs {args : List Component} (h : AllNormal cs) (hargs : AllNormal args) :
    AllNormal (ofArgs name args :: cs) := by
  refine h.cons (isNormal_ofArgs hargs) fun d _ => ?_
  obtain ⟨before, after, args', heq⟩ := exists_ofArgs name args
  rw [heq]
  trivial

/-! ## The reader -/

namespace Reader

/-- What has been read so far is in normal form, in the innermost function and around it. -/
structure IsNormal (r : Reader) : Prop where
  items : AllNormal r.items
  outer : ∀ e ∈ r.outer, AllNormal e.2

/-- White space may follow: no divider has its own already. -/
def Awaits (r : Reader) (t : Token) : Prop := t.kind = .blank → EndsBare r.items

/-- One more token keeps the normal form. -/
theorem IsNormal.step {r : Reader} {t : Token} (h : r.IsNormal) (ht : r.Awaits t) : (r.step t).IsNormal := by
  obtain ⟨kind, text⟩ := t
  obtain ⟨items, outer, block⟩ := r
  obtain ⟨hitems, houter⟩ := h
  have hword (block : List Bracket) : (⟨pushWord text items, outer, block⟩ : Reader).IsNormal :=
    ⟨allNormal_pushWord hitems, houter⟩
  have henter (name : Text) : (⟨[], (name, items) :: outer, block⟩ : Reader).IsNormal :=
    ⟨.nil, List.forall_mem_cons.2 ⟨hitems, houter⟩⟩
  unfold Reader.step
  cases block with
  | cons b block => exact hword _
  | nil =>
    cases kind with
    | blank => exact ⟨allNormal_pushSpace hitems (ht rfl), houter⟩
    | comma | colon | slash => exact ⟨allNormal_pushDiv hitems, houter⟩
    | comment inside => exact ⟨hitems.cons_comment inside, houter⟩
    | string =>
      refine ⟨?_, houter⟩
      cases text with
      | nil => exact hitems.cons_string _ _
      | cons quote inside => exact hitems.cons_string _ _
    | function name => exact henter name
    | openBracket b =>
      cases b with
      | paren => exact henter []
      | square | curly => exact hword _
    | closeBracket b =>
      cases b with
      | paren =>
        cases outer with
        | nil => exact hword _
        | cons enclosing outer =>
          rw [List.forall_mem_cons] at houter
          exact ⟨houter.1.cons_ofArgs hitems.reverse, houter.2⟩
      | square | curly => exact hword _
    | semicolon | word => exact hword _

theorem endsBare_pushWord (t : Text) (cs : Reversed) : EndsBare (pushWord t cs) := by
  unfold pushWord
  split <;> exact fun _ _ _ _ h => nomatch h

/-- Only white space can follow a divider into it. -/
theorem endsBare_step (r : Reader) {t : Token} (ht : t.kind ≠ .blank) : EndsBare (r.step t).items := by
  obtain ⟨kind, text⟩ := t
  obtain ⟨items, outer, block⟩ := r
  have hword := endsBare_pushWord text items
  unfold step
  cases block with
  | cons b block => exact hword
  | nil =>
    cases kind with
    | blank => exact absurd rfl ht
    | comma | colon | slash =>
      intro sign before after rest h
      simp only [List.isEmpty_nil, Bool.not_true, Bool.false_eq_true, ↓reduceIte, pushDiv] at h
      split at h <;> · cases h; rfl
    | comment inside => exact fun _ _ _ _ h => nomatch h
    | string => cases text <;> exact fun _ _ _ _ h => nomatch h
    | function name => exact fun _ _ _ _ h => nomatch h
    | openBracket b =>
      cases b with
      | paren => exact fun _ _ _ _ h => nomatch h
      | square | curly => exact hword
    | closeBracket b =>
      cases b with
      | paren =>
        cases outer with
        | nil => exact hword
        | cons enclosing outer =>
          intro sign before after rest h
          obtain ⟨_, _, _, heq⟩ := exists_ofArgs enclosing.1 items.reverse
          simp [heq] at h
      | square | curly => exact hword
    | semicolon | word => exact hword

/-- Tokens no two neighbours of which are blank keep the normal form. -/
theorem IsNormal.foldl {ts : List Token} (hts : ts.IsChain fun x y => ¬(x.kind = .blank ∧ y.kind = .blank)) {r : Reader}
    (h : r.IsNormal) (hr : ∀ t ∈ ts.head?, r.Awaits t) : (ts.foldl Reader.step r).IsNormal := by
  induction ts generalizing r with
  | nil => exact h
  | cons t ts ih =>
    refine ih hts.tail (h.step (hr t rfl)) fun t' ht' hblank => ?_
    exact r.endsBare_step fun hblank' => (List.isChain_cons.1 hts).1 t' ht' ⟨hblank', hblank⟩

theorem allNormal_finish {items : Reversed} {outer : List (Text × Reversed)} (hitems : AllNormal items)
    (houter : ∀ e ∈ outer, AllNormal e.2) : AllNormal (finish items outer) := by
  induction outer generalizing items with
  | nil => exact hitems.reverse
  | cons enclosing outer ih =>
    rw [List.forall_mem_cons] at houter
    exact ih (houter.1.cons_ofArgs hitems.reverse) houter.2

end Reader

/-- The components of every text are in normal form. -/
theorem allNormal_ofText (t : Text) : AllNormal (ofText t) := by
  have hstart : (({} : Reader)).IsNormal := ⟨.nil, fun _ h => (List.not_mem_nil h).elim⟩
  have hread := hstart.foldl (isChain_tokens t) fun _ _ _ _ _ _ _ h => nomatch h
  exact Reader.allNormal_finish hread.items hread.outer

/-- **What is read of a value.** The components of every text are in normal form; where everything in the text is closed
and no name of a function is disguised, they print the text. -/
theorem ofText_faithful (t : Text) : AllNormal (ofText t) ∧ (t.IsClosed → renderAll (ofText t) = t) :=
  ⟨allNormal_ofText t, renderAll_ofText⟩

/-- Functions, dividers, a quoted parenthesis, a comment and a block that holds a lone closer. -/
def mixedValue : Text := "image-set( url('a)b') 1x , f( /* ( */ \"c\" )/[ x \x7d ] 2x ) : fast"

theorem ofText_faithful_mixed : mixedValue.IsClosed ∧ renderAll (ofText mixedValue) = mixedValue := by
  have hclosed : mixedValue.IsClosed := ⟨by decide +kernel, by decide +kernel, by decide +kernel⟩
  exact ⟨hclosed, (ofText_faithful mixedValue).2 hclosed⟩

end Component

end VendorCss
