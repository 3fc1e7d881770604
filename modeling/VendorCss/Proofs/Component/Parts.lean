import VendorCss.Proofs.Component.Texts
import VendorCss.Proofs.Token.Delimiters

/-!
# Components read in parts

Where one component ends and the next one starts, one token ends and the next one starts. So the tokens of a list of
components are those of its first part and those of its second part, each of which can be read alone (`Reads.parts`).
Parts that are read alone can be put together, unless words or white space join at the seam (`Reads.append`).
-/

namespace VendorCss

namespace Component

namespace Reader

variable {r : Reader} {t : Token} {c : Component} {cs base : Reversed}

/-! ## Components below others -/

/-- The functions that are open, upon further components. -/
def under (base : Reversed) : List (Text × Reversed) → List (Text × Reversed)
  | [] => []
  | [(name, before)] => [(name, before ++ base)]
  | e :: outer => e :: under base outer

/-- The reader where further components stand before all that it has read. -/
def on (base : Reversed) (r : Reader) : Reader :=
  { r with items := if r.outer.isEmpty then r.items ++ base else r.items, outer := under base r.outer }

/-- The components before the outermost function that is open, or all where none is. -/
def outermost (items : Reversed) : List (Text × Reversed) → Reversed
  | [] => items
  | (_, before) :: outer => outermost before outer

/-- The components that no open function is around. -/
def bottom (r : Reader) : Reversed := outermost r.items r.outer

theorem pushWord_append (text : Text) (h : cs ≠ []) : pushWord text (cs ++ base) = pushWord text cs ++ base := by
  obtain ⟨c, cs, rfl⟩ := List.exists_cons_of_ne_nil h
  cases c <;> rfl

theorem pushSpace_append (text : Text) (h : cs ≠ []) : pushSpace text (cs ++ base) = pushSpace text cs ++ base := by
  obtain ⟨c, cs, rfl⟩ := List.exists_cons_of_ne_nil h
  cases c <;> simp only [List.cons_append, pushSpace]
  split <;> rfl

theorem pushDiv_append (sign : Text) (h : cs ≠ []) : pushDiv sign (cs ++ base) = pushDiv sign cs ++ base := by
  obtain ⟨c, cs, rfl⟩ := List.exists_cons_of_ne_nil h
  cases c <;> rfl

theorem eq_nil_of_under {outer : List (Text × Reversed)} (h : under base outer = []) : outer = [] := by
  match outer with
  | [] => rfl
  | [_] => cases h
  | _ :: _ :: _ => cases h

theorem step_on (h : r.items ≠ [] ∨ r.outer ≠ []) (base : Reversed) (t : Token) :
    (r.on base).step t = (r.step t).on base := by
  obtain ⟨items, outer, block⟩ := r
  obtain ⟨kind, text⟩ := t
  match outer with
  | [] =>
    have hitems : items ≠ [] := h.resolve_right fun hne => hne rfl
    have hword : pushWord text (items ++ base) = pushWord text items ++ base := pushWord_append text hitems
    cases block with
    | cons b block => simp [step, inBlock, on, under, hword]
    | nil =>
      cases kind with
      | openBracket b => cases b <;> simp [step, on, under, hword]
      | closeBracket b => cases b <;> simp [step, on, under, hword]
      | _ => simp [step, on, under, hword, pushSpace_append text hitems, pushDiv_append text hitems]
  | [(name, before)] =>
    cases block with
    | cons b block => simp [step, inBlock, on, under]
    | nil =>
      cases kind with
      | openBracket b => cases b <;> simp [step, on, under]
      | closeBracket b => cases b <;> simp [step, on, under]
      | _ => simp [step, on, under]
  | (name, before) :: e :: outer =>
    cases block with
    | cons b block => simp [step, inBlock, on, under]
    | nil =>
      cases kind with
      | openBracket b => cases b <;> simp [step, on, under]
      | closeBracket b => cases b <;> simp [step, on, under]
      | _ => simp [step, on, under]

/-- A reader that has read a token has something. -/
theorem step_ne_nil (r : Reader) (t : Token) : (r.step t).items ≠ [] ∨ (r.step t).outer ≠ [] := by
  obtain ⟨items, outer, block⟩ := r
  obtain ⟨kind, text⟩ := t
  have hword : pushWord text items ≠ [] := by
    obtain ⟨_, _, h⟩ := exists_pushWord text items
    rw [h]
    exact List.cons_ne_nil _ _
  have hspace : pushSpace text items ≠ [] := by
    unfold pushSpace
    split
    · split <;> exact List.cons_ne_nil _ _
    · exact List.cons_ne_nil _ _
    · exact List.cons_ne_nil _ _
  have hdiv : pushDiv text items ≠ [] := by
    unfold pushDiv
    split <;> exact List.cons_ne_nil _ _
  unfold step
  cases block with
  | cons b block => exact .inl hword
  | nil =>
    cases kind with
    | blank => exact .inl hspace
    | comma | colon | slash => exact .inl hdiv
    | comment | string => exact .inl (List.cons_ne_nil _ _)
    | function => exact .inr (List.cons_ne_nil _ _)
    | openBracket b =>
      cases b with
      | paren => exact .inr (List.cons_ne_nil _ _)
      | square | curly => exact .inl hword
    | closeBracket b =>
      cases b with
      | paren =>
        cases outer with
        | nil => exact .inl hword
        | cons => exact .inl (List.cons_ne_nil _ _)
      | square | curly => exact .inl hword
    | semicolon | word => exact .inl hword

theorem foldl_on (h : r.items ≠ [] ∨ r.outer ≠ []) (base : Reversed) (xs : List Token) :
    xs.foldl step (r.on base) = (xs.foldl step r).on base := by
  induction xs generalizing r with
  | nil => rfl
  | cons t xs ih => rw [List.foldl_cons, List.foldl_cons, step_on h, ih (step_ne_nil r t)]

theorem bottom_on (base : Reversed) (r : Reader) : (r.on base).bottom = r.bottom ++ base := by
  have houter (items : Reversed) {outer : List (Text × Reversed)} (h : outer ≠ []) :
      outermost items (under base outer) = outermost items outer ++ base := by
    fun_induction under base outer generalizing items with
    | case1 => exact absurd rfl h
    | case2 => rfl
    | case3 e outer hne ih =>
      obtain ⟨name, before⟩ := e
      exact ih before fun hnil => hne name before rfl hnil
  obtain ⟨items, outer, block⟩ := r
  unfold bottom on
  cases outer with
  | nil => rfl
  | cons e outer => exact houter _ (List.cons_ne_nil e outer)

/-- An open block is part of the word that stands last. -/
def IsInWord (r : Reader) : Prop := r.block ≠ [] → ∃ w cs, r.items = word w :: cs

theorem IsInWord.step (h : r.IsInWord) (t : Token) : (r.step t).IsInWord := by
  obtain ⟨items, outer, block⟩ := r
  obtain ⟨kind, text⟩ := t
  have hword := exists_pushWord text items
  unfold Reader.step
  cases block with
  | cons b block => exact fun _ => hword
  | nil =>
    cases kind with
    | openBracket b =>
      cases b with
      | paren => exact fun h => absurd rfl h
      | square | curly => exact fun _ => hword
    | closeBracket b =>
      cases b with
      | paren => cases outer <;> exact fun h => absurd rfl h
      | square | curly => exact fun h => absurd rfl h
    | _ => exact fun h => absurd rfl h

theorem isInWord_foldl (xs : List Token) (h : r.IsInWord) : (xs.foldl Reader.step r).IsInWord := by
  induction xs generalizing r with
  | nil => exact h
  | cons t xs ih => exact ih (h.step t)

end Reader

/-- Words join words, and white space and dividers join each other. -/
def Joins (c d : Component) : Prop :=
  c.isWord = true ∧ d.isWord = true ∨ (c.isSpace || c.isAnyDiv) = true ∧ (d.isSpace || d.isAnyDiv) = true

/-- The components join the same components. -/
def Kindred (c d : Component) : Prop :=
  c.isWord = d.isWord ∧ (c.isSpace || c.isAnyDiv) = (d.isSpace || d.isAnyDiv)

theorem Kindred.trans {c d e : Component} (h : Kindred c d) (h' : Kindred d e) : Kindred c e :=
  ⟨h.1.trans h'.1, h.2.trans h'.2⟩

theorem Joins.of_kindred {c d e : Component} (h : Joins c d) (hkindred : Kindred d e) : Joins c e := by
  rwa [Joins, ← hkindred.1, ← hkindred.2]

namespace Reader

variable {r : Reader} {t : Token} {c : Component} {cs base : Reversed}

/-- A way to put a component `d` on others: it joins the last one, or it is a component of its own. -/
def Puts (push : Reversed → Reversed) (d : Component) : Prop :=
  ∀ items, (∃ c c' cs, items = c :: cs ∧ push items = c' :: cs ∧ Kindred c c' ∧ Joins c d) ∨ push items = d :: items

theorem puts_pushWord (text : Text) : Puts (pushWord text) (word text) := by
  intro items
  unfold pushWord
  split
  · exact .inl ⟨_, _, _, rfl, rfl, ⟨rfl, rfl⟩, .inl ⟨rfl, rfl⟩⟩
  · exact .inr rfl

theorem puts_pushSpace (text : Text) : Puts (pushSpace text) (space text) := by
  intro items
  unfold pushSpace
  split
  · split
    · exact .inl ⟨_, _, _, rfl, rfl, ⟨rfl, rfl⟩, .inr ⟨rfl, rfl⟩⟩
    · exact .inr rfl
  · exact .inl ⟨_, _, _, rfl, rfl, ⟨rfl, rfl⟩, .inr ⟨rfl, rfl⟩⟩
  · exact .inr rfl

theorem puts_pushDiv (sign : Text) : Puts (pushDiv sign) (div sign [] []) := by
  intro items
  unfold pushDiv
  split
  · exact .inl ⟨_, _, _, rfl, rfl, ⟨rfl, rfl⟩, .inr ⟨rfl, rfl⟩⟩
  · exact .inr rfl

theorem puts_cons (d : Component) : Puts (d :: ·) d := fun _ => .inr rfl

/-- Outside of functions and blocks a token goes on with the last component, or it starts something new. -/
theorem step_top (items : Reversed) (t : Token) :
    (∃ c c' cs block, items = c :: cs ∧ step ⟨items, [], []⟩ t = ⟨c' :: cs, [], block⟩ ∧ Kindred c c' ∧
      ∃ d, (step {} t).bottom = [d] ∧ Joins c d) ∨
    step ⟨items, [], []⟩ t = (step {} t).on items := by
  have hputs {push : Reversed → Reversed} {d : Component} {block : List Bracket} (hpush : Puts push d)
      (hstep : ∀ items, step ⟨items, [], []⟩ t = ⟨push items, [], block⟩) :
      (∃ c c' cs block, items = c :: cs ∧ step ⟨items, [], []⟩ t = ⟨c' :: cs, [], block⟩ ∧ Kindred c c' ∧
        ∃ d, (step {} t).bottom = [d] ∧ Joins c d) ∨
      step ⟨items, [], []⟩ t = (step {} t).on items := by
    have hnew : push [] = [d] := (hpush []).resolve_left fun ⟨_, _, _, h, _⟩ => nomatch h
    have hstart : step {} t = ⟨[d], [], block⟩ := by rw [← hnew]; exact hstep []
    rw [hstep, hstart]
    rcases hpush items with ⟨c, c', cs, rfl, hitems, hkindred, hjoins⟩ | hitems
    · exact .inl ⟨c, c', cs, block, rfl, by rw [hitems], hkindred, d, rfl, hjoins⟩
    · exact .inr (by rw [hitems]; rfl)
  obtain ⟨kind, text⟩ := t
  have hword {block : List Bracket}
      (hstep : ∀ items, step ⟨items, [], []⟩ ⟨kind, text⟩ = ⟨pushWord text items, [], block⟩) :=
    hputs (puts_pushWord text) hstep
  cases kind with
  | blank => exact hputs (puts_pushSpace text) fun _ => rfl
  | comma | colon | slash => exact hputs (puts_pushDiv text) fun _ => rfl
  | comment inside => exact hputs (puts_cons (comment inside)) fun _ => rfl
  | string => exact hputs (puts_cons (ofQuoted text)) fun _ => rfl
  | function => exact .inr rfl
  | openBracket b =>
    cases b with
    | paren => exact .inr rfl
    | square | curly => exact hword fun _ => rfl
  | closeBracket b => cases b <;> exact hword fun _ => rfl
  | semicolon | word => exact hword fun _ => rfl

/-- What a token does to the components that no function is around. -/
theorem bottom_step (h : r.IsInWord) (t : Token) :
    (r.outer = [] ∧ r.block = [] ∧ r.step t = (step {} t).on r.items) ∨
    (r.outer ≠ [] ∧ (r.step t).bottom = r.bottom) ∨
    (r.outer ≠ [] ∧ (r.step t).outer = [] ∧ ∃ c, (r.step t).bottom = c :: r.bottom) ∨
    (r.outer = [] ∧ (r.step t).outer = [] ∧
      ∃ c c' cs, r.bottom = c :: cs ∧ (r.step t).bottom = c' :: cs ∧ Kindred c c') := by
  obtain ⟨items, outer, block⟩ := r
  match outer with
  | [] =>
    cases block with
    | cons b block =>
      obtain ⟨w, cs, rfl⟩ := h (List.cons_ne_nil b block)
      exact .inr (.inr (.inr ⟨rfl, rfl, _, _, cs, rfl, rfl, rfl, rfl⟩))
    | nil =>
      rcases step_top items t with ⟨c, c', cs, block, rfl, hstep, hkindred, -⟩ | hstep
      · exact .inr (.inr (.inr ⟨rfl, by rw [hstep], c, c', cs, rfl, by rw [hstep]; rfl, hkindred⟩))
      · exact .inl ⟨rfl, rfl, hstep⟩
  | (name, before) :: outer =>
    right
    have hkeep {r : Reader} (hbottom : r.bottom = outermost before outer) :
        (⟨items, (name, before) :: outer, block⟩ : Reader).outer ≠ [] ∧
          r.bottom = (⟨items, (name, before) :: outer, block⟩ : Reader).bottom :=
      ⟨List.cons_ne_nil _ _, hbottom⟩
    obtain ⟨kind, text⟩ := t
    cases block with
    | cons b block => exact .inl (hkeep rfl)
    | nil =>
      cases kind with
      | openBracket b => cases b <;> exact .inl (hkeep rfl)
      | closeBracket b =>
        cases b with
        | paren =>
          cases outer with
          | nil => exact .inr (.inl ⟨List.cons_ne_nil _ _, rfl, _, rfl⟩)
          | cons e outer => exact .inl (hkeep rfl)
        | square | curly => exact .inl (hkeep rfl)
      | _ => exact .inl (hkeep rfl)

/-- The first token starts a component, or it opens a function. -/
theorem step_empty (t : Token) :
    ((step {} t).bottom = [] ∧ (step {} t).outer ≠ []) ∨
      ∃ d, (step {} t).bottom = [d] ∧ (step {} t).outer = [] := by
  obtain ⟨kind, text⟩ := t
  cases kind with
  | function => exact .inl ⟨rfl, List.cons_ne_nil _ _⟩
  | openBracket b =>
    cases b with
    | paren => exact .inl ⟨rfl, List.cons_ne_nil _ _⟩
    | square | curly => exact .inr ⟨_, rfl, rfl⟩
  | closeBracket b => cases b <;> exact .inr ⟨_, rfl, rfl⟩
  | _ => exact .inr ⟨_, rfl, rfl⟩

/-- Where a list of components is cut, the tokens are cut: those of the later components are read as if nothing stood
before them. A function that is open belongs to the later part. -/
theorem exists_parts {xs : List Token} {newer older : Reversed} (h : (xs.foldl step {}).bottom = newer ++ older)
    (hne : newer = [] → (xs.foldl step {}).outer ≠ []) :
    ∃ as bs, xs = as ++ bs ∧ as.foldl step {} = ⟨older, [], []⟩ ∧ xs.foldl step {} = (bs.foldl step {}).on older := by
  induction xs using List.reverseRecOn generalizing newer with
  | nil =>
    obtain ⟨rfl, -⟩ := List.append_eq_nil_iff.1 h.symm
    exact absurd rfl (hne rfl)
  | append_singleton xs t ih =>
    rw [List.foldl_append, List.foldl_cons, List.foldl_nil] at h hne
    generalize hr : xs.foldl step {} = r at h hne ih
    have hinWord : r.IsInWord := hr ▸ isInWord_foldl xs fun hblock => absurd rfl hblock
    -- the cut lies before the last token
    have hearlier {newer' : Reversed} (hbottom : r.bottom = newer' ++ older) (hne' : newer' = [] → r.outer ≠ []) :
        ∃ as bs, xs ++ [t] = as ++ bs ∧ as.foldl step {} = ⟨older, [], []⟩ ∧
          (xs ++ [t]).foldl step {} = (bs.foldl step {}).on older := by
      obtain ⟨as, bs, rfl, has, hbs⟩ := ih hbottom hne'
      refine ⟨as, bs ++ [t], List.append_assoc _ _ _, has, ?_⟩
      have hsome : (bs.foldl step {}).items ≠ [] ∨ (bs.foldl step {}).outer ≠ [] := by
        by_contra hnone
        simp only [not_or, not_not] at hnone
        rw [hbs, bottom_on, bottom, hnone.1, hnone.2] at hbottom
        refine hne' (List.append_cancel_right hbottom).symm ?_
        rw [hbs, on, hnone.2]
        rfl
      rw [List.foldl_append, hr, hbs, List.foldl_append]
      exact step_on hsome older t
    rcases bottom_step hinWord t with ⟨houter, hblock, hstep⟩ | ⟨houter, hbottom⟩ | ⟨houter, hnil, c, hbottom⟩ |
      ⟨houter, hnil, c, c', cs, hbottom, hbottom', -⟩
    · obtain ⟨items, outer, block⟩ := r
      obtain rfl : outer = [] := houter
      obtain rfl : block = [] := hblock
      have hnew (heq : older = items) : ∃ as bs, xs ++ [t] = as ++ bs ∧ as.foldl step {} = ⟨older, [], []⟩ ∧
          (xs ++ [t]).foldl step {} = (bs.foldl step {}).on older :=
        ⟨xs, [t], rfl, by rw [hr, heq], by rw [List.foldl_append, hr, heq]; exact hstep⟩
      rw [hstep, bottom_on] at h
      rcases step_empty t with ⟨hempty, -⟩ | ⟨d, hsingle, houter⟩
      · rw [hempty, List.nil_append] at h
        cases newer with
        | nil => exact hnew h.symm
        | cons e newer => exact hearlier h fun hcons => nomatch hcons
      · rw [hsingle, List.singleton_append] at h
        cases newer with
        | nil =>
          refine absurd ?_ (hne rfl)
          rw [hstep, on, houter]
          rfl
        | cons e newer =>
          obtain ⟨rfl, rfl⟩ := List.cons.inj h
          cases newer with
          | nil => exact hnew rfl
          | cons e newer => exact hearlier rfl fun hcons => nomatch hcons
    · exact hearlier (hbottom.symm.trans h) fun _ => houter
    · cases newer with
      | nil => exact absurd hnil (hne rfl)
      | cons d newer =>
        rw [hbottom, List.cons_append] at h
        exact hearlier (List.cons.inj h).2 fun _ => houter
    · cases newer with
      | nil => exact absurd hnil (hne rfl)
      | cons d newer =>
        rw [hbottom', List.cons_append] at h
        have hcut : r.bottom = c :: newer ++ older := by rw [hbottom, (List.cons.inj h).2, List.cons_append]
        exact hearlier hcut fun hcons => nomatch hcons

/-- The first component keeps its class. -/
theorem kindred_foldl (h : r.IsInWord) (hc : r.bottom.getLast? = some c) (xs : List Token) :
    ∃ d, (xs.foldl step r).bottom.getLast? = some d ∧ Kindred c d := by
  induction xs generalizing r c with
  | nil => exact ⟨c, hc, rfl, rfl⟩
  | cons t xs ih =>
    have hkeep (front : Reversed) (hbottom : (r.step t).bottom = front ++ r.bottom) :
        ∃ d, ((t :: xs).foldl step r).bottom.getLast? = some d ∧ Kindred c d :=
      ih (h.step t) (by rw [hbottom, List.getLast?_append, hc]; rfl)
    rcases bottom_step h t with ⟨houter, -, hstep⟩ | ⟨-, hbottom⟩ | ⟨-, -, e, hbottom⟩ |
      ⟨-, -, e, e', cs, hbottom, hbottom', hkindred⟩
    · refine hkeep (step {} t).bottom ?_
      rw [hstep, bottom_on, bottom, bottom, houter]
      rfl
    · exact hkeep [] hbottom
    · exact hkeep [e] hbottom
    · cases cs with
      | nil =>
        rw [hbottom] at hc
        obtain rfl := Option.some.inj hc
        obtain ⟨d, hd, hkindred'⟩ := ih (h.step t) (c := e') (by rw [hbottom']; rfl)
        exact ⟨d, hd, hkindred.trans hkindred'⟩
      | cons e'' cs =>
        rw [hbottom, List.getLast?_cons_cons] at hc
        exact ih (h.step t) (by rw [hbottom', List.getLast?_cons_cons, hc])

end Reader

/-! ## Lists of components -/

/-- The tokens are read as the components, and leave nothing open. -/
def Reads (xs : List Token) (cs : List Component) : Prop := xs.foldl Reader.step {} = ⟨cs.reverse, [], []⟩

variable {xs ys : List Token} {cs ds : List Component} {c d : Component} {t : Token}

theorem Reads.nil : Reads [] [] := rfl

/-- What is read as two parts consists of the tokens of the two parts. -/
theorem Reads.parts (h : Reads xs (cs ++ ds)) : ∃ as bs, xs = as ++ bs ∧ Reads as cs ∧ Reads bs ds := by
  by_cases hds : ds = []
  · subst hds
    rw [List.append_nil] at h
    exact ⟨xs, [], (List.append_nil xs).symm, h, .nil⟩
  rw [Reads, List.reverse_append] at h
  have hbottom : (xs.foldl Reader.step {}).bottom = ds.reverse ++ cs.reverse := by
    rw [h]
    rfl
  obtain ⟨as, bs, rfl, has, hbs⟩ := Reader.exists_parts hbottom fun hnil => absurd (List.reverse_eq_nil_iff.1 hnil) hds
  refine ⟨as, bs, rfl, has, ?_⟩
  rw [h] at hbs
  rw [Reads]
  generalize bs.foldl Reader.step {} = r at hbs ⊢
  obtain ⟨items, outer, block⟩ := r
  obtain ⟨hitems, houter, rfl⟩ := Reader.mk.inj hbs
  obtain rfl := Reader.eq_nil_of_under houter.symm
  rw [List.append_cancel_right (hitems : ds.reverse ++ cs.reverse = items ++ cs.reverse)]

theorem Reader.foldl_append (h : Reads xs cs) (ys : List Token) :
    (xs ++ ys).foldl Reader.step {} = ys.foldl Reader.step ⟨cs.reverse, [], []⟩ := by
  rw [List.foldl_append, h]

/-- The class of the first component is that of what the first token starts. -/
theorem Reads.kindred_head (h : Reads (t :: xs) ds) (hc : (Reader.step {} t).bottom = [c]) :
    ∃ d, ds.head? = some d ∧ Kindred c d := by
  have hstart : (Reader.step {} t).IsInWord := Reader.IsInWord.step (fun hblock => absurd rfl hblock) t
  obtain ⟨d, hd, hkindred⟩ := Reader.kindred_foldl hstart (by rw [hc]; rfl) xs
  rw [Reads, List.foldl_cons] at h
  rw [h, Reader.bottom, Reader.outermost, List.getLast?_reverse] at hd
  exact ⟨d, hd, hkindred⟩

/-- Parts that are read alone are put together, where nothing joins. -/
theorem Reads.append (hxs : Reads xs cs) (hys : Reads ys ds)
    (hjoins : ∀ c ∈ cs.getLast?, ∀ d ∈ ds.head?, ¬Joins c d) : Reads (xs ++ ys) (cs ++ ds) := by
  cases ys with
  | nil =>
    obtain rfl : ds = [] := List.reverse_eq_nil_iff.1 (congrArg Reader.items hys).symm
    rwa [List.append_nil, List.append_nil]
  | cons t ys =>
    have hstep : Reader.step ⟨cs.reverse, [], []⟩ t = (Reader.step {} t).on cs.reverse := by
      refine (Reader.step_top _ t).resolve_left ?_
      rintro ⟨c, _, _, _, hcs, _, _, e, hbottom, hjoin⟩
      obtain ⟨d, hd, hkindred⟩ := hys.kindred_head hbottom
      refine hjoins c ?_ d hd (hjoin.of_kindred hkindred)
      rw [List.getLast?_eq_head?_reverse, hcs]
      rfl
    rw [Reads, Reader.foldl_append hxs, List.foldl_cons, hstep, Reader.foldl_on (Reader.step_ne_nil _ t)]
    rw [Reads, List.foldl_cons] at hys
    rw [hys, List.reverse_append]
    rfl

/-- After a component that is no word the last token ends by itself. -/
theorem Reads.isDelimiter {a : Token} (h : Reads (xs ++ [a]) (cs ++ [c])) (hc : c.isWord = false) :
    a.kind.isDelimiter = true := by
  rw [Reads, List.foldl_append, List.foldl_cons, List.foldl_nil, List.reverse_concat] at h
  generalize xs.foldl Reader.step {} = r at h
  obtain ⟨items, outer, block⟩ := r
  obtain ⟨kind, text⟩ := a
  have hword {block : List Bracket} {outer : List (Text × Reversed)}
      (h : (⟨pushWord text items, outer, block⟩ : Reader) = ⟨c :: cs.reverse, [], []⟩) : kind.isDelimiter = true := by
    obtain ⟨w, ds, hpush⟩ := Reader.exists_pushWord text items
    rw [hpush] at h
    rw [← (List.cons.inj (Reader.mk.inj h).1).1] at hc
    cases hc
  unfold Reader.step at h
  cases block with
  | cons b block => exact hword h
  | nil =>
    cases kind with
    | function => cases (Reader.mk.inj h).2.1
    | openBracket b =>
      cases b with
      | paren => cases (Reader.mk.inj h).2.1
      | square | curly => exact hword h
    | closeBracket b =>
      cases b with
      | paren => rfl
      | square | curly => exact hword h
    | semicolon | word => exact hword h
    | _ => rfl

/-- More characters of the last word are more characters of the last component. -/
theorem Reads.extend {u : Text} (h : Reads (xs ++ [⟨.word, u⟩]) cs) (s : Text) :
    ∃ ds w, cs = ds ++ [word (w ++ u)] ∧ Reads (xs ++ [⟨.word, u ++ s⟩]) (ds ++ [word (w ++ (u ++ s))]) := by
  rw [Reads, List.foldl_append, List.foldl_cons, List.foldl_nil] at h
  generalize hr : xs.foldl Reader.step {} = r at h
  have hreads {ds : List Component} {w : Text}
      (hstep : r.step ⟨.word, u ++ s⟩ = ⟨word (w ++ (u ++ s)) :: ds.reverse, [], []⟩) :
      Reads (xs ++ [⟨.word, u ++ s⟩]) (ds ++ [word (w ++ (u ++ s))]) := by
    rw [Reads, List.foldl_append, hr, List.reverse_concat]
    exact hstep
  obtain ⟨items, outer, block⟩ := r
  cases block with
  | cons b block => cases (Reader.mk.inj h).2.2
  | nil =>
    obtain ⟨hitems, rfl, -⟩ := Reader.mk.inj h
    change pushWord u items = cs.reverse at hitems
    unfold pushWord at hitems
    split at hitems
    · rename_i w ds
      refine ⟨ds.reverse, w, by rw [← List.reverse_cons, hitems, List.reverse_reverse], hreads ?_⟩
      rw [List.reverse_reverse]
      rfl
    · rename_i hword
      refine ⟨items.reverse, [], by rw [List.nil_append, ← List.reverse_cons, hitems, List.reverse_reverse], hreads ?_⟩
      have hpush : pushWord (u ++ s) items = word (u ++ s) :: items := by
        unfold pushWord
        split
        · exact (hword _ _ rfl).elim
        · rfl
      rw [List.reverse_reverse, List.nil_append, ← hpush]
      rfl

/-- Closed tokens are printed back. -/
theorem Reads.renderAll_eq (h : Reads xs cs) (hread : ∀ x ∈ xs, x.IsRead) (hprinted : ∀ x ∈ xs, printed x = x.text) :
    renderAll cs = xs.flatMap Token.text := by
  have hwritten := Reader.written_foldl hread hprinted {}
  rw [h] at hwritten
  simpa [Reader.written, Reader.opening, renderAll] using hwritten

end Component

end VendorCss
