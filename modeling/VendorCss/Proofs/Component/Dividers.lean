import VendorCss.Proofs.Component.NormalForm
import VendorCss.Proofs.Token.Rejoining

/-!
# The dividers of a text

A divider of a text has one of three signs, the comma, the colon and the slash (`forall_isSigned_ofText`). So it can be
told from every component that is known by a word.
-/

namespace VendorCss

/-- The signs of dividers. -/
def dividerSigns : List Text := [",", ":", "/"]

/-- A token that is read as a divider. -/
def TokenKind.isSign (kind : TokenKind) : Bool := kind = .comma || kind = .colon || kind = .slash

namespace Token

variable {c : Char} {t : Text}

/-- What the scanner answers is no divider, or one that the character `c` is the sign of. -/
def Signs (c : Char) (answer : TokenKind × Nat) : Prop := answer.1.isSign = true → answer.2 = 0 ∧ [c] ∈ dividerSigns

theorem signs_of_isSign {answer : TokenKind × Nat} (h : answer.1.isSign = false) : Signs c answer :=
  fun hsign => by simp [h] at hsign

theorem signs_stringToken (quote : Char) (t : Text) : Signs c (stringToken quote 0 t) := by
  refine signs_of_isSign ?_
  rcases stringToken_kind quote 0 t with h | h <;> rw [h] <;> rfl

theorem signs_nameToken (t : Text) (f : Nat → Nat) : Signs c ((nameToken t).map id f) := by
  unfold nameToken
  dsimp only
  split
  · split <;> exact signs_of_isSign rfl
  · exact signs_of_isSign rfl

theorem signs_ite {p : Prop} [Decidable p] {x y : TokenKind × Nat} (hx : p → Signs c x) (hy : Signs c y) :
    Signs c (if p then x else y) := by
  split
  · exact hx ‹_›
  · exact hy

theorem signs_scan (c : Char) (t : Text) : Signs c (scan c t) := by
  have free {kind : TokenKind} {n : Nat} (h : kind.isSign = false) : Signs c (kind, n) := signs_of_isSign h
  have word {n : Nat} : Signs c (.word, n) := free rfl
  unfold scan
  refine signs_ite (fun _ => free rfl) (signs_ite (fun _ => signs_stringToken c t) ?_)
  refine signs_ite (fun _ => free rfl) (signs_ite (fun _ => free rfl) (signs_ite (fun _ => free rfl) ?_))
  refine signs_ite (fun _ => free rfl) (signs_ite (fun _ => free rfl) (signs_ite (fun _ => free rfl) ?_))
  refine signs_ite (fun _ => free rfl) ?_
  -- the colon, the comma and the slash
  refine signs_ite (fun h _ => ⟨rfl, by subst h; decide⟩) (signs_ite (fun h _ => ⟨rfl, by subst h; decide⟩) ?_)
  refine signs_ite (fun h => ?_) ?_
  · subst h
    split
    · exact free rfl
    · exact fun _ => ⟨rfl, by decide⟩
  refine signs_ite (fun _ => word) (signs_ite (fun _ => word) (signs_ite (fun _ => word) ?_))
  refine signs_ite (fun _ => word) (signs_ite (fun _ => word) (signs_ite (fun _ => word) ?_))
  refine signs_ite (fun _ => ?_) (signs_ite (fun _ => signs_nameToken _ _) word)
  refine signs_ite (fun _ => word) (signs_ite (fun _ => word) ?_)
  exact signs_ite (fun _ => signs_nameToken _ _) word

end Token

/-- A token of a divider is its sign. -/
theorem tokens_sign (t : Text) : ∀ x ∈ tokens t, x.kind.isSign = true → x.text ∈ dividerSigns := by
  refine Token.tokensWithin_forall (fun c t hsign => ?_) _ t
  obtain ⟨hlength, hc⟩ := Token.signs_scan c t hsign
  rwa [hlength, List.take_zero]

namespace Component

/-- Every divider, at every depth, has one of the three signs. -/
inductive IsSigned : Component → Prop
  | word (t : Text) : IsSigned (word t)
  | space (t : Text) : IsSigned (space t)
  | div {sign : Text} (hsign : sign ∈ dividerSigns) (before after : Text) : IsSigned (div sign before after)
  | string (quote : Char) (t : Text) : IsSigned (string quote t)
  | comment (t : Text) : IsSigned (comment t)
  | function {name before after : Text} {args : List Component} (hargs : ∀ c ∈ args, IsSigned c) :
      IsSigned (function name before after args)

variable {c : Component} {cs : List Component}

theorem IsSigned.text_mem (h : c.IsSigned) (hc : c.isAnyDiv = true) : c.text ∈ dividerSigns := by
  cases h with
  | div hsign => exact hsign
  | _ => cases hc

theorem IsSigned.of_args (h : c.IsSigned) : ∀ d ∈ c.args, d.IsSigned := by
  cases h with
  | function hargs => exact hargs
  | _ => exact fun d hd => (List.not_mem_nil hd).elim

/-! ## What the reader puts together -/

theorem forall_isSigned_pushWord (t : Text) (h : ∀ d ∈ cs, d.IsSigned) : ∀ d ∈ pushWord t cs, d.IsSigned := by
  unfold pushWord
  split
  · exact List.forall_mem_cons.2 ⟨.word _, (List.forall_mem_cons.1 h).2⟩
  · exact List.forall_mem_cons.2 ⟨.word t, h⟩

theorem forall_isSigned_pushSpace (t : Text) (h : ∀ d ∈ cs, d.IsSigned) : ∀ d ∈ pushSpace t cs, d.IsSigned := by
  unfold pushSpace
  split
  · obtain ⟨hdiv, hrest⟩ := List.forall_mem_cons.1 h
    split
    · cases hdiv with
      | div hsign => exact List.forall_mem_cons.2 ⟨.div hsign _ _, hrest⟩
    · exact List.forall_mem_cons.2 ⟨.space t, h⟩
  · exact List.forall_mem_cons.2 ⟨.space _, (List.forall_mem_cons.1 h).2⟩
  · exact List.forall_mem_cons.2 ⟨.space t, h⟩

theorem forall_isSigned_pushDiv {sign : Text} (hsign : sign ∈ dividerSigns) (h : ∀ d ∈ cs, d.IsSigned) :
    ∀ d ∈ pushDiv sign cs, d.IsSigned := by
  unfold pushDiv
  split
  · exact List.forall_mem_cons.2 ⟨.div hsign _ _, (List.forall_mem_cons.1 h).2⟩
  · exact List.forall_mem_cons.2 ⟨.div hsign _ _, h⟩

theorem isSigned_ofArgs (name : Text) (h : ∀ d ∈ cs, d.IsSigned) : (ofArgs name cs).IsSigned := by
  obtain ⟨before, after, args, heq⟩ := exists_ofArgs name cs
  rw [heq]
  refine .function fun d hd => h d (mem_of_mem_args (?_ : d ∈ (ofArgs name cs).args))
  rwa [heq]

/-! ## The reader -/

namespace Reader

/-- What has been read so far is signed. -/
structure IsSigned (r : Reader) : Prop where
  items : ∀ c ∈ r.items, c.IsSigned
  outer : ∀ e ∈ r.outer, ∀ c ∈ e.2, c.IsSigned

theorem IsSigned.step {r : Reader} {t : Token} (h : r.IsSigned)
    (ht : t.kind.isSign = true → t.text ∈ dividerSigns) : (r.step t).IsSigned := by
  obtain ⟨kind, text⟩ := t
  obtain ⟨items, outer, block⟩ := r
  obtain ⟨hitems, houter⟩ := h
  have hword (block : List Bracket) : (⟨pushWord text items, outer, block⟩ : Reader).IsSigned :=
    ⟨forall_isSigned_pushWord text hitems, houter⟩
  have henter (name : Text) : (⟨[], (name, items) :: outer, block⟩ : Reader).IsSigned :=
    ⟨fun _ hc => (List.not_mem_nil hc).elim, List.forall_mem_cons.2 ⟨hitems, houter⟩⟩
  unfold Reader.step
  cases block with
  | cons b block => exact hword _
  | nil =>
    cases kind with
    | blank => exact ⟨forall_isSigned_pushSpace text hitems, houter⟩
    | comma | colon | slash => exact ⟨forall_isSigned_pushDiv (ht rfl) hitems, houter⟩
    | comment inside => exact ⟨List.forall_mem_cons.2 ⟨.comment inside, hitems⟩, houter⟩
    | string =>
      cases text with
      | nil => exact ⟨List.forall_mem_cons.2 ⟨.string _ _, hitems⟩, houter⟩
      | cons quote inside => exact ⟨List.forall_mem_cons.2 ⟨.string _ _, hitems⟩, houter⟩
    | function name => exact henter name
    | openBracket b =>
      cases b with
      | paren => exact henter []
      | square | curly => exact hword _
    | closeBracket b =>
      cases b with
      | paren =>
        cases outer with
        | nil => exact hword _
        | cons enclosing outer =>
          obtain ⟨houter, hrest⟩ := List.forall_mem_cons.1 houter
          have hargs := isSigned_ofArgs enclosing.1 fun d hd => hitems d (List.mem_reverse.1 hd)
          exact ⟨List.forall_mem_cons.2 ⟨hargs, houter⟩, hrest⟩
      | square | curly => exact hword _
    | semicolon | word => exact hword _

theorem IsSigned.foldl {ts : List Token} (hts : ∀ t ∈ ts, t.kind.isSign = true → t.text ∈ dividerSigns) {r : Reader}
    (h : r.IsSigned) : (ts.foldl Reader.step r).IsSigned := by
  induction ts generalizing r with
  | nil => exact h
  | cons t ts ih =>
    rw [List.forall_mem_cons] at hts
    exact ih hts.2 (h.step hts.1)

theorem forall_isSigned_finish {items : Reversed} {outer : List (Text × Reversed)}
    (hitems : ∀ c ∈ items, c.IsSigned) (houter : ∀ e ∈ outer, ∀ c ∈ e.2, c.IsSigned) :
    ∀ c ∈ finish items outer, c.IsSigned := by
  induction outer generalizing items with
  | nil => exact fun c hc => hitems c (List.mem_reverse.1 hc)
  | cons enclosing outer ih =>
    obtain ⟨hbefore, hrest⟩ := List.forall_mem_cons.1 houter
    have hargs := isSigned_ofArgs enclosing.1 fun d hd => hitems d (List.mem_reverse.1 hd)
    exact ih (List.forall_mem_cons.2 ⟨hargs, hbefore⟩) hrest

end Reader

/-- The components of every text are signed. -/
theorem forall_isSigned_ofText (t : Text) : ∀ c ∈ ofText t, c.IsSigned := by
  have hstart : (({} : Reader)).IsSigned := ⟨fun _ h => (List.not_mem_nil h).elim, fun _ h => (List.not_mem_nil h).elim⟩
  have hread := hstart.foldl (tokens_sign t)
  exact Reader.forall_isSigned_finish hread.items hread.outer

end Component

end VendorCss
