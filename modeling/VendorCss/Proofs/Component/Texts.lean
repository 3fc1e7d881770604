import VendorCss.Proofs.Component.NormalForm

/-!
# The texts of words and of white space

The white space between components is not empty and holds nothing but white space of CSS, and a word starts with
another character (`forall_isSpelled_ofText`). A token that starts with white space is blank; while a block is open every
token joins a word, which is the last component that was read.
-/

namespace VendorCss

/-- A token has characters, and only a blank one starts with white space. -/
theorem tokens_start (t : Text) :
    ∀ x ∈ tokens t, ∃ c rest, x.text = c :: rest ∧ (Token.isSpace c = true → x.kind = .blank) := by
  refine Token.tokensWithin_forall (fun c t => ⟨c, _, rfl, fun hc => ?_⟩) _ t
  unfold Token.scan
  rw [if_pos hc]

namespace Component

/-- Words start with another character than white space, and white space, that around dividers too, is nothing else, at
every depth. -/
inductive IsSpelled : Component → Prop
  | word {c : Char} (hc : Token.isSpace c = false) (t : Text) : IsSpelled (word (c :: t))
  | space {t : Text} (hne : t ≠ []) (hall : ∀ c ∈ t, Token.isSpace c = true) : IsSpelled (space t)
  | div (sign : Text) {before after : Text} (hbefore : ∀ c ∈ before, Token.isSpace c = true)
      (hafter : ∀ c ∈ after, Token.isSpace c = true) : IsSpelled (div sign before after)
  | string (quote : Char) (t : Text) : IsSpelled (string quote t)
  | comment (t : Text) : IsSpelled (comment t)
  | function {name before after : Text} {args : List Component} (hargs : ∀ c ∈ args, IsSpelled c) :
      IsSpelled (function name before after args)

variable {cs : List Component} {t : Text}

/-! ## What the reader puts together -/

theorem forall_isSpelled_pushWord {c : Char} (hc : Token.isSpace c = false) (t : Text)
    (h : ∀ d ∈ cs, d.IsSpelled) : ∀ d ∈ pushWord (c :: t) cs, d.IsSpelled := by
  unfold pushWord
  split
  · obtain ⟨hword, hrest⟩ := List.forall_mem_cons.1 h
    cases hword with
    | word hc t => exact List.forall_mem_cons.2 ⟨.word hc _, hrest⟩
  · exact List.forall_mem_cons.2 ⟨.word hc t, h⟩

theorem forall_isSpelled_pushSpace (hne : t ≠ []) (ht : ∀ c ∈ t, Token.isSpace c = true)
    (h : ∀ d ∈ cs, d.IsSpelled) : ∀ d ∈ pushSpace t cs, d.IsSpelled := by
  unfold pushSpace
  split
  · split
    · obtain ⟨hdiv, hrest⟩ := List.forall_mem_cons.1 h
      cases hdiv with
      | div _ hbefore _ => exact List.forall_mem_cons.2 ⟨.div _ hbefore ht, hrest⟩
    · exact List.forall_mem_cons.2 ⟨.space hne ht, h⟩
  · obtain ⟨hspace, hrest⟩ := List.forall_mem_cons.1 h
    cases hspace with
    | space hne' hall =>
      refine List.forall_mem_cons.2 ⟨.space (by simp [hne]) fun c hc => ?_, hrest⟩
      exact (List.mem_append.1 hc).elim (hall c) (ht c)
  · exact List.forall_mem_cons.2 ⟨.space hne ht, h⟩

theorem forall_isSpelled_pushDiv (sign : Text) (h : ∀ d ∈ cs, d.IsSpelled) :
    ∀ d ∈ pushDiv sign cs, d.IsSpelled := by
  unfold pushDiv
  split
  · obtain ⟨hspace, hrest⟩ := List.forall_mem_cons.1 h
    cases hspace with
    | space _ hall => exact List.forall_mem_cons.2 ⟨.div _ hall fun _ hc => (List.not_mem_nil hc).elim, hrest⟩
  · have hnone : ∀ c ∈ ([] : Text), Token.isSpace c = true := fun _ hc => (List.not_mem_nil hc).elim
    exact List.forall_mem_cons.2 ⟨.div sign hnone hnone, h⟩

theorem isSpelled_ofArgs (name : Text) (h : ∀ d ∈ cs, d.IsSpelled) : (ofArgs name cs).IsSpelled := by
  obtain ⟨before, after, args, heq⟩ := exists_ofArgs name cs
  rw [heq]
  refine .function fun d hd => h d (mem_of_mem_args (?_ : d ∈ (ofArgs name cs).args))
  rwa [heq]

/-! ## The reader -/

namespace Reader

/-- What has been read so far is spelled, and an open block is that of a word which stands last. -/
structure IsSpelled (r : Reader) : Prop where
  items : ∀ c ∈ r.items, c.IsSpelled
  outer : ∀ e ∈ r.outer, ∀ c ∈ e.2, c.IsSpelled
  block : r.block ≠ [] → ∃ t cs, r.items = word t :: cs

theorem exists_pushWord (t : Text) (cs : Reversed) : ∃ u ds, pushWord t cs = word u :: ds := by
  unfold pushWord
  split <;> exact ⟨_, _, rfl⟩

theorem IsSpelled.step {r : Reader} {t : Token} (h : r.IsSpelled) (hread : t.IsRead)
    (hstart : ∃ c rest, t.text = c :: rest ∧ (Token.isSpace c = true → t.kind = .blank)) : (r.step t).IsSpelled := by
  obtain ⟨kind, text⟩ := t
  obtain ⟨items, outer, block⟩ := r
  obtain ⟨hitems, houter, hblock⟩ := h
  obtain ⟨c, rest, rfl, hblank⟩ := hstart
  have hword (hkind : kind ≠ .blank) (block : List Bracket) :
      (⟨pushWord (c :: rest) items, outer, block⟩ : Reader).IsSpelled :=
    ⟨forall_isSpelled_pushWord (Bool.eq_false_iff.2 fun hc => hkind (hblank hc)) rest hitems, houter,
      fun _ => exists_pushWord _ _⟩
  have henter (name : Text) : (⟨[], (name, items) :: outer, []⟩ : Reader).IsSpelled :=
    ⟨fun _ hc => (List.not_mem_nil hc).elim, List.forall_mem_cons.2 ⟨hitems, houter⟩, fun h => absurd rfl h⟩
  have hput {items' : Reversed} (hitems' : ∀ c ∈ items', c.IsSpelled) : (⟨items', outer, []⟩ : Reader).IsSpelled :=
    ⟨hitems', houter, fun h => absurd rfl h⟩
  unfold Reader.step
  cases block with
  | cons b block =>
    -- any token joins the word that the block is in
    obtain ⟨w, cs, rfl⟩ := hblock (List.cons_ne_nil b block)
    obtain ⟨hw, hcs⟩ := List.forall_mem_cons.1 hitems
    cases hw with
    | word hw w => exact ⟨List.forall_mem_cons.2 ⟨.word hw _, hcs⟩, houter, fun _ => ⟨_, _, rfl⟩⟩
  | nil =>
    cases kind with
    | blank => exact hput (forall_isSpelled_pushSpace (List.cons_ne_nil c rest) hread hitems)
    | comma | colon | slash => exact hput (forall_isSpelled_pushDiv _ hitems)
    | comment inside => exact hput (List.forall_mem_cons.2 ⟨.comment inside, hitems⟩)
    | string => exact hput (List.forall_mem_cons.2 ⟨.string _ _, hitems⟩)
    | function name => exact henter name
    | openBracket b =>
      cases b with
      | paren => exact henter []
      | square | curly => exact hword nofun _
    | closeBracket b =>
      cases b with
      | paren =>
        cases outer with
        | nil => exact hword nofun _
        | cons enclosing outer =>
          obtain ⟨houter, hrest⟩ := List.forall_mem_cons.1 houter
          have hargs := isSpelled_ofArgs enclosing.1 fun d hd => hitems d (List.mem_reverse.1 hd)
          exact ⟨List.forall_mem_cons.2 ⟨hargs, houter⟩, hrest, fun h => absurd rfl h⟩
      | square | curly => exact hword nofun _
    | semicolon | word => exact hword nofun _

theorem IsSpelled.foldl {ts : List Token} (hread : ∀ x ∈ ts, x.IsRead)
    (hstart : ∀ x ∈ ts, ∃ c rest, x.text = c :: rest ∧ (Token.isSpace c = true → x.kind = .blank)) {r : Reader}
    (h : r.IsSpelled) : (ts.foldl Reader.step r).IsSpelled := by
  induction ts generalizing r with
  | nil => exact h
  | cons t ts ih =>
    rw [List.forall_mem_cons] at hread hstart
    exact ih hread.2 hstart.2 (h.step hread.1 hstart.1)

theorem forall_isSpelled_finish {items : Reversed} {outer : List (Text × Reversed)}
    (hitems : ∀ c ∈ items, c.IsSpelled) (houter : ∀ e ∈ outer, ∀ c ∈ e.2, c.IsSpelled) :
    ∀ c ∈ finish items outer, c.IsSpelled := by
  induction outer generalizing items with
  | nil => exact fun c hc => hitems c (List.mem_reverse.1 hc)
  | cons enclosing outer ih =>
    obtain ⟨hbefore, hrest⟩ := List.forall_mem_cons.1 houter
    have hargs := isSpelled_ofArgs enclosing.1 fun d hd => hitems d (List.mem_reverse.1 hd)
    exact ih (List.forall_mem_cons.2 ⟨hargs, hbefore⟩) hrest

end Reader

/-- The components of every text are spelled so. -/
theorem forall_isSpelled_ofText (t : Text) : ∀ c ∈ ofText t, c.IsSpelled := by
  have hstart : (({} : Reader)).IsSpelled :=
    ⟨fun _ h => (List.not_mem_nil h).elim, fun _ h => (List.not_mem_nil h).elim, fun h => absurd rfl h⟩
  have hread := hstart.foldl (tokens_isRead t) (tokens_start t)
  exact Reader.forall_isSpelled_finish hread.items hread.outer

end Component

end VendorCss
