import VendorCss.Proofs.Token.Rejoining

/-!
# What follows a token

A token is cut without a look at most of what follows. What is closed, a string, a comment or a URL, stays closed
whatever follows it. Names and numbers end before a border: white space, a comma, a semicolon, another divider, a
closing parenthesis or a quote. So the tokens of a text before one border are those before another (`tokens_replaced`),
save that a word with an escape in digits at its end takes in the blank that comes to stand after it.

`p` is a text, `x` what followed it and `z` what follows it now.
-/

namespace VendorCss

namespace Token

variable {p q x z : Text} {c d : Char}

/-! ## What is closed -/

/-- A run that ends within `p` is a run of `p`. -/
theorem takeWhile_append_of_lt {f : Char → Bool} (h : ((p ++ x).takeWhile f).length < p.length) (z : Text) :
    (p ++ z).takeWhile f = (p ++ x).takeWhile f := by
  induction p with
  | nil => cases h
  | cons c p ih =>
    rw [List.cons_append, List.takeWhile_cons] at h
    rw [List.cons_append, List.cons_append, List.takeWhile_cons, List.takeWhile_cons]
    split
    · rename_i hc
      rw [if_pos hc] at h
      rw [ih (Nat.lt_of_succ_lt_succ h)]
    · rfl

/-- The digits of an escape that ends within `p`. -/
theorem hexDigits_of_lt (h : (hexDigits (p ++ x)).length < p.length) (z : Text) :
    hexDigits (p ++ z) = hexDigits (p ++ x) := by
  rw [length_hexDigits] at h
  have hrun : ((p ++ z).take 6).takeWhile (fun c => (hexValue? c).isSome) =
      ((p ++ x).take 6).takeWhile fun c => (hexValue? c).isSome := by
    rw [List.take_append] at h ⊢
    rw [List.take_append]
    by_cases hp : 6 ≤ p.length
    · simp only [Nat.sub_eq_zero_of_le hp, List.take_zero]
    · rw [List.take_of_length_le (Nat.le_of_not_le hp)] at h ⊢
      exact takeWhile_append_of_lt h _
  rw [hexDigits, hexDigits, List.takeWhile_map, List.takeWhile_map]
  exact congrArg (fun t => (t.map hexValue?).filterMap id) hrun

theorem spaceLength_of_lt (h : spaceLength (p ++ x) < p.length) (z : Text) :
    spaceLength (p ++ z) = spaceLength (p ++ x) := by
  match p with
  | [] => cases h
  | [c] =>
    rw [List.cons_append, List.nil_append, spaceLength_cons, List.length_singleton] at h
    have hc : isSpace c = false := by
      by_contra hspace
      rw [Bool.not_eq_false] at hspace
      rw [if_pos hspace] at h
      split at h <;> omega
    have hreturn : c ≠ '\r' := by rintro rfl; exact absurd hc (by decide)
    simp [spaceLength_cons, hc, hreturn]
  | c :: d :: q => simp [spaceLength_cons]

/-- An escape that ends within `p`. -/
theorem escapeLength_of_lt (h : escapeLength (p ++ x) < p.length) (z : Text) :
    escapeLength (p ++ z) = escapeLength (p ++ x) := by
  have hdigits : (hexDigits (p ++ x)).length < p.length := by
    unfold escapeLength at h
    split at h
    · rename_i hnil
      rw [hnil]
      exact Nat.zero_lt_of_lt h
    · exact Nat.lt_of_le_of_lt (Nat.le_add_right _ _) h
  unfold escapeLength at h ⊢
  rw [hexDigits_of_lt hdigits z]
  split at h
  · rw [List.length_append] at h ⊢
    rw [List.length_append]
    omega
  · have hle := Nat.le_of_lt hdigits
    rw [List.drop_append_of_le_length hle] at h ⊢
    rw [List.drop_append_of_le_length hle, spaceLength_of_lt (x := x) (by rw [List.length_drop]; omega)]

/-- What is passed over of a string is part of it. -/
theorem lt_stringToken {quote : Char} {n k : Nat} {t : Text} (hk : k < t.length) (hn : k ≤ n)
    (h : (stringToken quote n t).1 = .string) : k < (stringToken quote n t).2 := by
  fun_induction stringToken quote n t generalizing k with
  | case1 => cases hk
  | case2 n c t ih =>
    cases k with
    | zero => exact Nat.succ_pos _
    | succ k => exact Nat.succ_lt_succ (ih (Nat.lt_of_succ_lt_succ hk) (Nat.le_of_succ_le_succ hn) h)
  | case3 => exact Nat.lt_of_le_of_lt hn Nat.one_pos
  | case4 => cases h
  | case5 | case6 => exact Nat.lt_of_le_of_lt hn (Nat.succ_pos _)

/-- A closed string stays one. -/
theorem stringToken_closed {quote : Char} {n : Nat} (hx : x ≠ []) (h : (stringToken quote n (p ++ x)).1 = .string)
    (hle : (stringToken quote n (p ++ x)).2 ≤ p.length) (z : Text) :
    stringToken quote n (p ++ z) = stringToken quote n (p ++ x) := by
  -- what is passed over ends within `p`
  have hskip {q : Text} {n : Nat} (h : (stringToken quote n (q ++ x)).1 = .string)
      (hle : (stringToken quote n (q ++ x)).2 ≤ q.length) : n < q.length := by
    by_contra hn
    have hlength := List.length_pos_iff.2 hx
    have hlt := lt_stringToken (k := q.length) (by rw [List.length_append]; omega) (Nat.le_of_not_lt hn) h
    omega
  induction p generalizing n with
  | nil => exact absurd (hskip h hle) (Nat.not_lt_zero _)
  | cons c p ih =>
    cases n with
    | succ n =>
      rw [List.cons_append, stringToken] at h hle ⊢
      rw [List.cons_append, stringToken, ih h (Nat.le_of_succ_le_succ hle)]
    | zero =>
      rw [List.cons_append, stringToken] at h hle ⊢
      rw [List.cons_append, stringToken]
      by_cases hc : c = quote
      · rw [if_pos hc, if_pos hc]
      rw [if_neg hc] at h hle ⊢
      rw [if_neg hc]
      by_cases hline : isLineEnd c = true
      · rw [if_pos hline, if_pos hline]
      rw [if_neg hline] at h hle ⊢
      rw [if_neg hline]
      by_cases hescape : c = '\\'
      · rw [if_pos hescape] at h hle ⊢
        rw [if_pos hescape]
        have hlt := hskip h (Nat.le_of_succ_le_succ hle)
        have hp : p ≠ [] := List.ne_nil_of_length_pos (Nat.zero_lt_of_lt hlt)
        rw [startsWithLineEnd_append hp] at h hle hlt ⊢
        rw [startsWithLineEnd_append hp]
        by_cases hl : startsWithLineEnd p = true
        · rw [if_pos hl] at h hle hlt ⊢
          rw [if_pos hl, spaceLength_of_lt hlt, ih h (Nat.le_of_succ_le_succ hle)]
        · rw [if_neg hl] at h hle hlt ⊢
          rw [if_neg hl, escapeLength_of_lt hlt, ih h (Nat.le_of_succ_le_succ hle)]
      · rw [if_neg hescape] at h hle ⊢
        rw [if_neg hescape, ih h (Nat.le_of_succ_le_succ hle)]

theorem lt_urlLength {s : UrlState} {n k : Nat} {t : Text} (hk : k < t.length) (hn : k ≤ n) : k < urlLength s n t := by
  fun_induction urlLength s n t generalizing k with
  | case1 => cases hk
  | case2 s n c t ih =>
    cases k with
    | zero => exact Nat.succ_pos _
    | succ k => exact Nat.succ_lt_succ (ih (Nat.lt_of_succ_lt_succ hk) (Nat.le_of_succ_le_succ hn))
  | case3 => exact Nat.lt_of_le_of_lt hn Nat.one_pos
  | case4 => exact Nat.lt_of_le_of_lt hn (Nat.succ_pos _)

/-- What a character does to a URL is settled within `p`. -/
theorem urlStep_of_lt {s s' : UrlState} {n : Nat} (h : urlStep s c (p ++ x) = some (s', n)) (hn : n < p.length)
    (z : Text) : urlStep s c (p ++ z) = some (s', n) := by
  obtain ⟨e, q, rfl⟩ := List.exists_cons_of_ne_nil (List.ne_nil_of_length_pos (Nat.zero_lt_of_lt hn))
  have hline (t : Text) := startsWithLineEnd_append (List.cons_ne_nil e q) t
  have hescape := @escapeLength_of_lt (e :: q) x
  cases s <;> simp only [urlStep, hline] at h ⊢ <;> grind

/-- A closed URL stays one. -/
theorem urlLength_closed {s : UrlState} {n : Nat} (hx : x ≠ []) (hle : urlLength s n (p ++ x) ≤ p.length) (z : Text) :
    urlLength s n (p ++ z) = urlLength s n (p ++ x) := by
  have hskip {q : Text} {s : UrlState} {n : Nat} (hle : urlLength s n (q ++ x) ≤ q.length) : n < q.length := by
    by_contra hn
    have hlength := List.length_pos_iff.2 hx
    have hlt := lt_urlLength (s := s) (k := q.length) (t := q ++ x) (by rw [List.length_append]; omega)
      (Nat.le_of_not_lt hn)
    omega
  induction p generalizing s n with
  | nil => exact absurd (hskip hle) (Nat.not_lt_zero _)
  | cons c p ih =>
    cases n with
    | succ n =>
      rw [List.cons_append, urlLength] at hle ⊢
      rw [List.cons_append, urlLength, ih (Nat.le_of_succ_le_succ hle)]
    | zero =>
      rw [List.cons_append, urlLength] at hle ⊢
      rw [List.cons_append, urlLength]
      cases hstep : urlStep s c (p ++ x) with
      | none => rw [urlStep_eq_none.2 (urlStep_eq_none.1 hstep)]
      | some next =>
        obtain ⟨s', n⟩ := next
        rw [hstep] at hle
        have hle' := Nat.le_of_succ_le_succ hle
        rw [urlStep_of_lt hstep (hskip hle')]
        exact congrArg (· + 1) (ih hle')

theorem commentBody_pos {t : Text} (ht : t ≠ []) : 0 < (commentBody t).2 := by
  fun_cases commentBody t
  · exact absurd rfl ht
  · exact Nat.succ_pos _
  · exact Nat.succ_pos _

/-- A closed comment stays one. -/
theorem commentBody_of_le (hx : x ≠ []) (hle : (commentBody (p ++ x)).2 ≤ p.length) (z : Text) :
    commentBody (p ++ z) = commentBody (p ++ x) := by
  induction p with
  | nil => exact absurd (commentBody_pos hx) (Nat.not_lt_of_le hle)
  | cons c p ih =>
    cases p with
    | nil =>
      -- the rest of the comment is not empty, or it is the slash after the star
      by_cases hend : c = '*' ∧ x.head? = some '/'
      · obtain ⟨rfl, hhead⟩ := hend
        obtain ⟨t, rfl⟩ := List.head?_eq_some_iff.1 hhead
        exact absurd hle (Nat.not_le_of_lt (Nat.lt_succ_self 1))
      · rw [List.cons_append, List.nil_append, commentBody_cons fun hc hhead => hend ⟨hc, hhead⟩] at hle
        exact absurd (commentBody_pos hx) (Nat.not_lt_of_le (Nat.le_of_succ_le_succ hle))
    | cons e q =>
      by_cases hend : c = '*' ∧ e = '/'
      · obtain ⟨rfl, rfl⟩ := hend
        rfl
      · have hgo (t : Text) : c = '*' → (e :: q ++ t).head? ≠ some '/' := fun hc hhead =>
          hend ⟨hc, Option.some.inj hhead⟩
        rw [List.cons_append, commentBody_cons (hgo x)] at hle
        rw [List.cons_append, commentBody_cons (hgo z), ih (Nat.le_of_succ_le_succ hle)]
        exact (commentBody_cons (hgo x)).symm

/-! ## Borders -/

/-- The characters that end names and numbers. -/
def borders : List Char := [' ', '\t', '\n', '\r', '\x0c', ',', ';', ':', '/', ')', '"', '\'']

/-- A text that is empty or starts with a border. -/
def StartsBorder (x : Text) : Prop := ∀ c ∈ x.head?, c ∈ borders

theorem mem_borders_of_isSpace (h : isSpace c = true) : c ∈ borders := by
  simp only [isSpace, isLineEnd, Bool.or_eq_true, beq_iff_eq] at h
  rcases h with (rfl | rfl) | (rfl | rfl) | rfl <;> decide

theorem ne_of_mem_borders (h : c ∈ borders) (hd : d ∉ borders) : c ≠ d := by
  rintro rfl
  exact hd h

theorem isNamePart_of_mem_borders (h : c ∈ borders) : isNamePart c = false :=
  (by decide : ∀ c ∈ borders, isNamePart c = false) c h

theorem isNameStart_of_mem_borders (h : c ∈ borders) : isNameStart c = false :=
  (by decide : ∀ c ∈ borders, isNameStart c = false) c h

theorem StartsBorder.endsNumber (hx : StartsBorder x) : EndsNumber x := fun c hc =>
  (by decide : ∀ c ∈ borders, isNumeralChar c = false ∧ hexValue? c = none) c (hx c hc)

theorem StartsBorder.head?_ne (hx : StartsBorder x) (hd : d ∉ borders) : x.head? ≠ some d := fun h => hd (hx d h)

theorem nameLength_border (hx : StartsBorder x) : nameLength 0 x = 0 := by
  cases x with
  | nil => rfl
  | cons c t =>
    have hname := isNamePart_of_mem_borders (hx c rfl)
    have hescape : c ≠ '\\' := ne_of_mem_borders (hx c rfl) (by decide)
    simp [nameLength, hname, hescape]

/-- Whether a name starts is settled before the border. -/
theorem startsName_border (hopen : opensEscape false p = false) (hx : StartsBorder x) :
    startsName (p ++ x) = startsName p := by
  have hnone : startsName x = false ∧ startsName ('-' :: x) = false := by
    cases x with
    | nil => exact ⟨rfl, by decide⟩
    | cons c t =>
      have hname := isNameStart_of_mem_borders (hx c rfl)
      have hhyphen : c ≠ '-' := ne_of_mem_borders (hx c rfl) (by decide)
      have hescape : c ≠ '\\' := ne_of_mem_borders (hx c rfl) (by decide)
      simp [startsName, hname, hhyphen, hescape]
  by_cases hp : p = []
  · rw [hp]
    exact hnone.1
  by_cases hm : p = ['-']
  · rw [hm]
    exact hnone.2
  · exact startsName_append hopen hp hm x

theorem startsWith_border {s : Text} (hs : ∀ c ∈ borders, c ∉ s) (hx : StartsBorder x) :
    Text.startsWith (p ++ x) s = Text.startsWith p s := dropStart?_append_of_head fun c hc => hs c (hx c hc)

/-- The text `z` may stand where `x` stands: both start with a border, and the same goes for what is left of `z` when an
escape takes in the blank at its start. -/
structure Replaces (x z : Text) : Prop where
  ne : x ≠ []
  before : StartsBorder x
  after : StartsBorder z
  quoted : startsQuoted z = startsQuoted x
  rest : x.head? = z.head? ∨ StartsBorder (z.drop (spaceLength z))

/-- Up to six digits of an escape, and white space after them. -/
def IsEscaped (p : Text) : Prop :=
  ∃ digits s, p = digits ++ s ∧ digits ≠ [] ∧ digits.length ≤ 6 ∧
    (∀ c ∈ digits, (hexValue? c).isSome = true) ∧ ∀ c ∈ s, isSpace c = true

/-- A text with an escape in digits at its end. -/
def EndsInEscape (p : Text) : Prop := ∃ a b, p = a ++ '\\' :: b ∧ IsEscaped b

theorem EndsInEscape.append (h : EndsInEscape p) (q : Text) : EndsInEscape (q ++ p) := by
  obtain ⟨a, b, rfl, hb⟩ := h
  exact ⟨q ++ a, b, by rw [List.append_assoc], hb⟩

theorem EndsInEscape.cons (h : EndsInEscape p) (c : Char) : EndsInEscape (c :: p) := h.append [c]

theorem EndsInEscape.of_drop {n : Nat} (h : EndsInEscape (p.drop n)) : EndsInEscape p := by
  have happend := h.append (p.take n)
  rwa [List.take_append_drop] at happend

/-- A length up to which `p ++ x` is read, and the length up to which `p ++ z` is: they agree if the first is within
`p`, but for a blank that `z` starts with and `x` does not, and that is only so where `escape` holds. -/
def Follows (escape : Prop) (p x z : Text) (nx nz : Nat) : Prop :=
  nx ≤ p.length → nz = nx ∨ (escape ∧ x.head? ≠ z.head? ∧ nx = p.length ∧ nz = p.length + spaceLength z)

variable {escape escape' : Prop}

theorem follows_refl (n : Nat) : Follows escape p x z n n := fun _ => .inl rfl

theorem Follows.mono {nx nz : Nat} (h : Follows escape p x z nx nz) (hescape : escape → escape') :
    Follows escape' p x z nx nz := fun hle => (h hle).imp_right (And.imp_left hescape)

theorem Follows.succ {nx nz : Nat} (h : Follows escape p x z nx nz) :
    Follows escape (c :: p) x z (nx + 1) (nz + 1) := fun hle =>
  (h (Nat.le_of_succ_le_succ hle)).imp (congrArg (· + 1)) fun ⟨he, hhead, hx, hz⟩ =>
    ⟨he, hhead, congrArg (· + 1) hx, by rw [hz, List.length_cons]; omega⟩

theorem Follows.after {m nx nz : Nat} (hm : m ≤ p.length) (h : Follows escape (p.drop m) x z nx nz) :
    Follows escape p x z (m + nx) (m + nz) := by
  intro hle
  rw [Follows, List.length_drop] at h
  rcases h (by omega) with heq | ⟨he, hhead, hx, hz⟩
  · exact .inl (by rw [heq])
  · exact .inr ⟨he, hhead, by omega, by omega⟩

theorem follows_ite {r : Prop} [Decidable r] {nx nz : Nat} (h : Follows escape p x z nx nz) :
    Follows escape p x z (if r then nx else 0) (if r then nz else 0) := by
  split
  · exact h
  · exact follows_refl 0

/-! ## Names and numbers -/

theorem isSpace_of_spaceLength_pos {c : Char} {t : Text} (h : 0 < spaceLength (c :: t)) : isSpace c = true := by
  by_contra hspace
  have hreturn : c ≠ '\r' := by rintro rfl; exact absurd hspace (by decide)
  simp [spaceLength_cons, hspace, hreturn] at h

theorem spaceLength_pos {c : Char} (h : isSpace c = true) (t : Text) : 0 < spaceLength (c :: t) := by
  rw [spaceLength_cons, if_pos h]
  split <;> exact Nat.succ_pos _

theorem spaceLength_le (t : Text) : spaceLength t ≤ t.length := by
  cases t with
  | nil => exact Nat.le_refl _
  | cons c t =>
    rw [spaceLength_cons]
    split
    · rename_i h
      obtain ⟨u, rfl⟩ := List.head?_eq_some_iff.1 h.2
      simp
    · split <;> simp

/-- A name goes on after what belongs to its escape. -/
theorem nameLength_skip {n : Nat} {t : Text} (hn : n ≤ t.length) : nameLength n t = n + nameLength 0 (t.drop n) := by
  induction n generalizing t with
  | zero => rw [List.drop_zero, Nat.zero_add]
  | succ n ih =>
    cases t with
    | nil => cases hn
    | cons c t =>
      rw [nameLength, ih (Nat.le_of_succ_le_succ hn), List.drop_succ_cons]
      omega

theorem le_of_nameLength_le {n : Nat} (hx : x ≠ []) (hle : nameLength n (p ++ x) ≤ p.length) : n ≤ p.length := by
  have hmin := le_nameLength n (p ++ x)
  have hlength := List.length_pos_iff.2 hx
  rw [List.length_append] at hmin
  omega

namespace Replaces

theorem follows_space (h : Replaces x z) (p : Text) :
    Follows (∀ c ∈ p, isSpace c = true) p x z (spaceLength (p ++ x)) (spaceLength (p ++ z)) := by
  intro hle
  obtain ⟨e, t, rfl⟩ := List.exists_cons_of_ne_nil h.ne
  match p with
  | [] =>
    -- no blank follows as it was
    have hx : spaceLength (e :: t) = 0 := Nat.le_zero.1 hle
    rcases Nat.eq_zero_or_pos (spaceLength z) with hz | hz
    · exact .inl (hz.trans hx.symm)
    · refine .inr ⟨fun _ hc => (List.not_mem_nil hc).elim, fun hhead => ?_, hx, (Nat.zero_add _).symm⟩
      obtain ⟨u, rfl⟩ := List.head?_eq_some_iff.1 hhead.symm
      exact absurd (spaceLength_pos (isSpace_of_spaceLength_pos hz) t) (Nat.not_lt_of_le (Nat.le_of_eq hx))
  | [c] =>
    have hfeed : isSpace '\n' = true ∧ isSpace '\r' = true := by decide
    simp only [List.mem_singleton, forall_eq]
    cases z with
    | nil => simp only [List.cons_append, List.nil_append, spaceLength_cons] at hle ⊢; grind
    | cons e' t' =>
      simp only [List.cons_append, List.nil_append, spaceLength_cons, List.head?_cons, List.length_singleton] at hle ⊢
      grind
  | c :: d :: q => exact .inl (by simp [spaceLength_cons])

theorem follows_escape (h : Replaces x z) (hp : p ≠ []) :
    Follows (IsEscaped p) p x z (escapeLength (p ++ x)) (escapeLength (p ++ z)) := by
  have hle := length_hexDigits_le p
  have hlength := List.length_pos_iff.2 hp
  unfold escapeLength
  rw [hexDigits_append h.before.endsNumber, hexDigits_append h.after.endsNumber]
  split
  · rw [List.length_append, List.length_append]
    exact fun _ => .inl (by omega)
  · rename_i hdigits
    rw [List.drop_append_of_le_length hle, List.drop_append_of_le_length hle]
    refine ((h.follows_space _).after hle).mono fun hspace =>
      ⟨_, _, (List.take_append_drop _ p).symm, ?_, ?_, fun c hc => ?_, hspace⟩
    · refine List.ne_nil_of_length_pos ?_
      rw [List.length_take]
      exact Nat.lt_min.2 ⟨List.length_pos_iff.2 hdigits, hlength⟩
    · rw [take_hexDigits]
      exact Nat.le_trans (List.takeWhile_prefix _).length_le (by rw [List.length_take]; exact Nat.min_le_left _ _)
    · rw [take_hexDigits] at hc
      exact List.mem_takeWhile_imp (p := fun c => (hexValue? c).isSome) hc

/-- A name, where `nx` characters belong to an escape already begun. -/
theorem follows_name (h : Replaces x z) {nx nz : Nat} (hskip : Follows escape p x z nx nz)
    (hopen : opensEscape false (p.drop nx) = false) :
    Follows (escape ∨ EndsInEscape p) p x z (nameLength nx (p ++ x)) (nameLength nz (p ++ z)) := by
  induction p generalizing escape nx nz with
  | nil =>
    intro hle
    obtain rfl := Nat.le_zero.1 (le_of_nameLength_le h.ne hle)
    have hx := nameLength_border h.before
    rcases hskip (Nat.zero_le _) with rfl | ⟨he, hhead, -, rfl⟩
    · exact .inl (by rw [List.nil_append, List.nil_append, hx, nameLength_border h.after])
    · -- the blank is taken in, and nothing after it
      refine .inr ⟨.inl he, hhead, hx, ?_⟩
      rw [List.length_nil, Nat.zero_add, List.nil_append, nameLength_skip (spaceLength_le z),
        nameLength_border (h.rest.resolve_left hhead)]
      rfl
  | cons c p ih =>
    intro hle
    have hnx := le_of_nameLength_le h.ne hle
    revert hle
    cases nx with
    | succ nx =>
      obtain ⟨nz, rfl, hnext⟩ : ∃ n, nz = n + 1 ∧ Follows escape p x z nx n := by
        rcases hskip hnx with rfl | ⟨he, hhead, heq, rfl⟩
        · exact ⟨nx, rfl, follows_refl nx⟩
        · exact ⟨p.length + spaceLength z, by rw [List.length_cons]; omega,
            fun _ => .inr ⟨he, hhead, Nat.succ.inj heq, rfl⟩⟩
      rw [List.cons_append, List.cons_append, nameLength, nameLength]
      exact (ih hnext hopen).succ.mono (Or.imp_right fun hopen => hopen.cons c)
    | zero =>
      obtain rfl : nz = 0 := (hskip hnx).resolve_right fun h => Nat.succ_ne_zero _ h.2.2.1.symm
      rw [List.drop_zero] at hopen
      rw [List.cons_append, List.cons_append, nameLength, nameLength]
      by_cases hc : isNamePart c = true
      · rw [opensEscape_cons (ne_backslash_of_isNamePart hc)] at hopen
        rw [if_pos hc, if_pos hc]
        exact (ih (follows_refl 0) hopen).succ.mono (Or.imp_right fun hopen => hopen.cons c)
      rw [if_neg hc, if_neg hc]
      by_cases hs : c = '\\'
      · subst hs
        rw [opensEscape_backslash] at hopen
        have hp : p ≠ [] := by
          rintro rfl
          cases hopen
        rw [opensEscape_true (List.prefix_append p x) hp] at hopen
        rw [startsWithLineEnd_append hp, startsWithLineEnd_append hp]
        split
        · exact (ih (h.follows_escape hp) hopen).succ.mono fun hopen =>
            .inr (hopen.elim (fun hescaped => ⟨[], p, rfl, hescaped⟩) fun hopen => hopen.cons '\\')
        · exact follows_refl 0
      · rw [if_neg (by simp [hs]), if_neg (by simp [hs])]
        exact follows_refl 0

/-- A name that starts with the text. -/
theorem follows_nameLength (h : Replaces x z) (hopen : opensEscape false p = false) :
    Follows (EndsInEscape p) p x z (nameLength 0 (p ++ x)) (nameLength 0 (p ++ z)) :=
  (h.follows_name (follows_refl 0 : Follows False p x z 0 0) hopen).mono fun hopen => hopen.elim False.elim id

theorem follows_unit (h : Replaces x z) (hopen : opensEscape false p = false) :
    Follows (EndsInEscape p) p x z (unitLength (p ++ x)) (unitLength (p ++ z)) := by
  have hname {t : Text} (ht : t.head? ≠ some '%') :
      unitLength t = if startsName t then nameLength 0 t else 0 := by
    rw [unitLength]
    rintro q rfl
    exact ht rfl
  by_cases hpercent : p.head? = some '%'
  · obtain ⟨q, rfl⟩ := List.head?_eq_some_iff.1 hpercent
    exact follows_refl 1
  · have hhead {t : Text} (ht : StartsBorder t) : (p ++ t).head? ≠ some '%' := by
      cases p with
      | nil => exact ht.head?_ne (by decide)
      | cons c q => exact hpercent
    rw [hname (hhead h.before), hname (hhead h.after), startsName_border hopen h.before,
      startsName_border hopen h.after]
    exact follows_ite (h.follows_nameLength hopen)

theorem follows_unsigned (h : Replaces x z) (hopen : opensEscape false p = false) :
    Follows (EndsInEscape p) p x z (unsignedLength (p ++ x)) (unsignedLength (p ++ z)) := by
  have hm := numeralLength_le p
  rw [unsignedLength_eq, unsignedLength_eq, numeralLength_append h.before.endsNumber,
    numeralLength_append h.after.endsNumber, List.drop_append_of_le_length hm, List.drop_append_of_le_length hm]
  refine ((h.follows_unit ?_).after hm).mono EndsInEscape.of_drop
  rw [opensEscape_drop (notMem_take_numeral (by decide) p), hopen]

/-- The name after a hash. -/
theorem follows_hash (h : Replaces x z) (hopen : opensEscape false p = false) :
    Follows (EndsInEscape p) p x z
      (if startsName (p ++ x) || startsDigit (p ++ x) || Text.startsWith (p ++ x) "-" then nameLength 0 (p ++ x) else 0)
      (if startsName (p ++ z) || startsDigit (p ++ z) || Text.startsWith (p ++ z) "-" then nameLength 0 (p ++ z)
        else 0) := by
  rw [startsName_border hopen h.before, startsName_border hopen h.after, startsDigit_append h.before.endsNumber,
    startsDigit_append h.after.endsNumber, startsWith_border (by decide) h.before,
    startsWith_border (by decide) h.after]
  exact follows_ite (h.follows_nameLength hopen)

end Replaces

/-! ## Tokens -/

/-- The token before `z` is the token before `x`, as far as that ends within `p`; only a word that ends with `p` may
take in a blank, and that where `escape` holds. -/
def Kept (escape : Prop) (p x z : Text) (ax az : TokenKind × Nat) : Prop :=
  ax.2 ≤ p.length →
    az = ax ∨ (escape ∧ x.head? ≠ z.head? ∧ ax = (.word, p.length) ∧ az = (.word, p.length + spaceLength z))

theorem kept_refl (a : TokenKind × Nat) : Kept escape p x z a a := fun _ => .inl rfl

theorem kept_word {nx nz : Nat} (h : Follows escape p x z nx nz) (hescape : escape → escape') :
    Kept escape' p x z (.word, nx) (.word, nz) := fun hle =>
  (h hle).imp (fun heq => by rw [heq]) fun ⟨hopen, hhead, hx, hz⟩ => ⟨hescape hopen, hhead, by rw [hx], by rw [hz]⟩

theorem kept_ite {r : Prop} [Decidable r] {x₁ x₂ z₁ z₂ : TokenKind × Nat} (hpos : r → Kept escape p x z x₁ z₁)
    (hneg : ¬r → Kept escape p x z x₂ z₂) : Kept escape p x z (if r then x₁ else x₂) (if r then z₁ else z₂) := by
  by_cases hr : r
  · rw [if_pos hr, if_pos hr]
    exact hpos hr
  · rw [if_neg hr, if_neg hr]
    exact hneg hr

theorem startsQuoted_congr (h : startsQuoted z = startsQuoted x) (q : Text) :
    startsQuoted (q ++ z) = startsQuoted (q ++ x) := by
  induction q with
  | nil => exact h
  | cons c q ih => rw [List.cons_append, List.cons_append, startsQuoted_cons, startsQuoted_cons, ih]

/-- A word that starts with `c`. -/
theorem Kept.tail {a₁ a₂ : TokenKind × Nat} (hpos : 0 < a₁.2) (h : Kept escape (c :: p) x z a₁ a₂) :
    Kept escape p x z (a₁.map id (· - 1)) (a₂.map id (· - 1)) := by
  intro hle
  rw [Prod.map_snd] at hle
  rcases h (by rw [List.length_cons]; omega) with rfl | ⟨he, hhead, rfl, rfl⟩
  · exact .inl rfl
  · refine .inr ⟨he, hhead, rfl, ?_⟩
    rw [Prod.map_apply, List.length_cons]
    exact congrArg _ (by omega)

namespace Replaces

theorem kept_nameToken (h : Replaces x z) (hopen : opensEscape false p = false) :
    Kept (EndsInEscape p) p x z (nameToken (p ++ x)) (nameToken (p ++ z)) := by
  intro hle
  have hfollows := h.follows_nameLength hopen
  have hn := Nat.le_trans (nameLength_le_nameToken _) hle
  have hword {t : Text} (ht : StartsBorder t) : t.head? ≠ some '(' := ht.head?_ne (by decide)
  generalize hN : nameLength 0 (p ++ x) = n at hfollows hn
  rcases Nat.lt_or_eq_of_le hn with hlt | rfl
  · -- the name ends within `p`
    have hname : nameLength 0 (p ++ z) = n :=
      (hfollows hn).resolve_right fun ⟨_, _, heq, _⟩ => absurd heq (Nat.ne_of_lt hlt)
    obtain ⟨e, q, hq⟩ := List.exists_cons_of_ne_nil (List.ne_nil_of_length_pos (l := p.drop n) (by
      rw [List.length_drop]; omega))
    have hdrop (t : Text) : (p ++ t).drop n = e :: (q ++ t) := by
      rw [List.drop_append_of_le_length hn, hq, List.cons_append]
    have htake (t : Text) : (p ++ t).take n = p.take n := List.take_append_of_le_length hn
    have hlength : p.length = n + 1 + q.length := by
      have hq := congrArg List.length hq
      rw [List.length_drop, List.length_cons] at hq
      omega
    left
    by_cases he : e = '('
    · subst he
      rw [nameToken_of_paren hN (hdrop _), htake] at hle ⊢
      rw [nameToken_of_paren hname (hdrop _), htake, startsQuoted_congr h.quoted]
      split
      · rename_i hurl
        rw [if_pos hurl] at hle
        rw [urlLength_closed h.ne (x := x) (by dsimp only at hle; omega)]
      · rfl
    · have hhead (t : Text) : ((p ++ t).drop n).head? ≠ some '(' := by
        rw [hdrop]
        exact fun hhead => he (Option.some.inj hhead)
      rw [nameToken_of_ne hN (hhead _), nameToken_of_ne hname (hhead _)]
  · rw [nameToken_of_ne hN (by rw [List.drop_left]; exact hword h.before)]
    rcases hfollows hn with hname | ⟨he, hhead, -, hname⟩
    · exact .inl (nameToken_of_ne hname (by rw [List.drop_left]; exact hword h.after))
    · refine .inr ⟨he, hhead, rfl, nameToken_of_ne hname ?_⟩
      rw [List.drop_append, List.drop_eq_nil_of_le (Nat.le_add_right _ _), Nat.add_sub_cancel_left, List.nil_append]
      exact hword (h.rest.resolve_left hhead)

theorem kept_slash (h : Replaces x z) : Kept escape p x z (scan '/' (p ++ x)) (scan '/' (p ++ z)) := by
  have hstar {e : Char} {t : Text} (he : e ≠ '*') : (e :: t).head? ≠ some '*' := fun hhead => he (Option.some.inj hhead)
  cases p with
  | nil =>
    rw [List.nil_append, List.nil_append, scan_slash (h.before.head?_ne (by decide)),
      scan_slash (h.after.head?_ne (by decide))]
    exact kept_refl _
  | cons e q =>
    rw [List.cons_append, List.cons_append]
    by_cases he : e = '*'
    · subst he
      rw [scan_slash_star, scan_slash_star]
      intro hle
      rw [commentBody_of_le h.ne (Nat.le_of_succ_le_succ hle)]
      exact .inl rfl
    · rw [scan_slash (hstar he), scan_slash (hstar he)]
      exact kept_refl _

/-- White space that ends with `p` is followed by none, or by what it was followed by. -/
theorem kept_blank (h : Replaces x z) (hspace : isSpace c = true)
    (hend : spaceLength z = 0 ∨ x.head? = z.head? ∨ ∀ e ∈ (c :: p).getLast?, isSpace e = false) :
    Kept escape p x z (.blank, ((p ++ x).takeWhile isSpace).length) (.blank, ((p ++ z).takeWhile isSpace).length) := by
  intro hle
  change ((p ++ x).takeWhile isSpace).length ≤ p.length at hle
  left
  rcases Nat.lt_or_eq_of_le hle with hlt | heq
  · rw [takeWhile_append_of_lt hlt]
  · have hall : ∀ e ∈ p, isSpace e = true := by
      have hrun : (p ++ x).takeWhile isSpace = p := by
        rw [List.prefix_iff_eq_take.1 (List.takeWhile_prefix isSpace), heq, List.take_left]
      exact fun e he => List.mem_takeWhile_imp (hrun ▸ he)
    rw [List.takeWhile_append_of_pos hall, List.length_append] at heq
    have hx : x.takeWhile isSpace = [] := List.length_eq_zero_iff.1 (by omega)
    have hstop {t : Text} (ht : ∀ e ∈ t.head?, isSpace e = false) : t.takeWhile isSpace = [] :=
      takeWhile_append_of_head (p := []) ht
    have hz : z.takeWhile isSpace = [] := by
      rcases hend with hzero | hhead | hlast
      · refine hstop fun e he => Bool.eq_false_iff.2 fun hspace => ?_
        obtain ⟨t, rfl⟩ := List.head?_eq_some_iff.1 he
        exact absurd (spaceLength_pos hspace t) (Nat.not_lt_of_le (Nat.le_of_eq hzero))
      · refine hstop fun e he => Bool.eq_false_iff.2 fun hspace => ?_
        obtain ⟨t, rfl⟩ := List.head?_eq_some_iff.1 (hhead.trans he)
        rw [List.takeWhile_cons_of_pos hspace] at hx
        cases hx
      · -- the last of the white space is white space
        have hlast := hlast _ (List.getLast?_eq_some_getLast (List.cons_ne_nil c p))
        rcases List.mem_cons.1 (List.getLast_mem (List.cons_ne_nil c p)) with heq | hmem
        · rw [heq, hspace] at hlast
          cases hlast
        · rw [hall _ hmem] at hlast
          cases hlast
    rw [List.takeWhile_append_of_pos hall, List.takeWhile_append_of_pos hall, hx, hz]

end Replaces

/-- The token that starts with `c`. -/
theorem scan_replaced (h : Replaces x z) (hopen : opensEscape false (c :: p) = false)
    (hstring : (c = '"' || c = '\'') = true → (stringToken c 0 (p ++ x)).1 = .string)
    (hend : spaceLength z = 0 ∨ x.head? = z.head? ∨ ∀ e ∈ (c :: p).getLast?, isSpace e = false) :
    Kept (EndsInEscape (c :: p)) p x z (scan c (p ++ x)) (scan c (p ++ z)) := by
  have hcons : EndsInEscape p → EndsInEscape (c :: p) := fun hopen => hopen.cons c
  have hpopen (hc : c ≠ '\\') : opensEscape false p = false := by rwa [opensEscape_cons hc] at hopen
  have hname (hstarts : startsName (c :: p) = true) :
      Kept (EndsInEscape (c :: p)) p x z ((nameToken (c :: (p ++ x))).map id (· - 1))
        ((nameToken (c :: (p ++ z))).map id (· - 1)) := by
    have hname : startsName (c :: p ++ x) = true := by rw [startsName_border hopen h.before, hstarts]
    exact (h.kept_nameToken (p := c :: p) hopen).tail (nameToken_pos hname)
  have hunsigned (hstarts : startsUnsigned (c :: p) = true) :
      Kept (EndsInEscape (c :: p)) p x z (.word, unsignedLength (c :: (p ++ x)) - 1)
        (.word, unsignedLength (c :: (p ++ z)) - 1) := by
    have hunsigned : startsUnsigned (c :: p ++ x) = true := by rw [startsUnsigned_append h.before.endsNumber, hstarts]
    exact (kept_word (h.follows_unsigned (p := c :: p) hopen) id).tail (unsignedLength_pos hunsigned)
  by_cases hslash : c = '/'
  · subst hslash
    exact h.kept_slash
  unfold scan
  refine kept_ite (fun hspace => h.kept_blank hspace hend) fun _ => ?_
  refine kept_ite (fun hquote hle => ?_) fun _ => ?_
  · exact .inl (stringToken_closed h.ne (hstring (by simpa using hquote)) hle z)
  iterate 9 refine kept_ite (fun _ => kept_refl _) fun _ => ?_
  refine kept_ite (fun hc => absurd hc hslash) fun _ => ?_
  refine kept_ite (fun hc => kept_word (h.follows_hash (hpopen (by rw [hc]; decide))) hcons) fun _ => ?_
  refine kept_ite (fun hc => kept_word ?_ hcons) fun _ => ?_
  · have hp := hpopen (by rw [hc]; decide)
    rw [startsName_border hp h.before, startsName_border hp h.after]
    exact follows_ite (h.follows_nameLength hp)
  rw [startsWith_border (s := "!--") (by decide) h.before, startsWith_border (s := "!--") (by decide) h.after,
    startsUnsigned_append h.before.endsNumber, startsUnsigned_append h.after.endsNumber,
    startsDigit_append h.before.endsNumber, startsDigit_append h.after.endsNumber,
    startsWith_border (s := "->") (by decide) h.before, startsWith_border (s := "->") (by decide) h.after,
    ← List.cons_append, ← List.cons_append, startsName_border hopen h.before, startsName_border hopen h.after]
  refine kept_ite (fun _ => kept_refl _) fun _ => ?_
  refine kept_ite (fun hc => kept_word (follows_ite (h.follows_unsigned ?_)) hcons) fun _ => ?_
  · exact hpopen (by rw [hc]; decide)
  refine kept_ite (fun hc => ?_) fun _ => ?_
  · by_cases hdigit : startsDigit p = true
    · rw [if_pos hdigit, if_pos hdigit]
      exact hunsigned (by rw [hc]; exact hdigit)
    · rw [if_neg hdigit, if_neg hdigit]
      exact kept_refl _
  refine kept_ite (fun hc => hunsigned (startsUnsigned_of_digit hc)) fun _ => ?_
  refine kept_ite (fun hc => ?_) fun _ => kept_ite hname fun _ => kept_refl _
  refine kept_ite (fun _ => kept_word (h.follows_unsigned (hpopen (by rw [hc]; decide))) hcons) fun _ => ?_
  exact kept_ite (fun _ => kept_refl _) fun _ => kept_ite hname fun _ => kept_refl _

/-- **The tokens before a border.** Another border after a text leaves its tokens as they are, but for a word at its end
that takes in a blank. -/
theorem tokens_replaced (h : Replaces x z) {k : Text} {xs : List Token} (hk : xs.flatMap Token.text = k)
    (hopen : opensEscape false k = false) (hbroken : ∀ u ∈ xs, u.isBroken = false)
    (hend : spaceLength z = 0 ∨ x.head? = z.head? ∨ ∀ e ∈ k.getLast?, isSpace e = false)
    (htokens : tokens (k ++ x) = xs ++ tokens x) :
    tokens (k ++ z) = xs ++ tokens z ∨ x.head? ≠ z.head? ∧ ∃ ys u, xs = ys ++ [⟨.word, u⟩] ∧ EndsInEscape u ∧
      tokens (k ++ z) = ys ++ ⟨.word, u ++ z.take (spaceLength z)⟩ :: tokens (z.drop (spaceLength z)) := by
  induction xs generalizing k with
  | nil =>
    rw [← hk]
    exact .inl rfl
  | cons u xs ih =>
    cases k with
    | nil => exact absurd ((flatMap_text_eq_nil htokens).1 hk) (List.cons_ne_nil u xs)
    | cons c p =>
      obtain ⟨d, r, rfl⟩ := List.exists_cons_of_ne_nil h.ne
      obtain ⟨hu, hle, htext, hrest⟩ := tokens_head hk htokens
      have hstring := string_of_isBroken hu (hbroken u List.mem_cons_self)
      have hkept := scan_replaced h hopen hstring hend hle
      generalize hscan : scan c (p ++ d :: r) = ax at hkept hu hle htext hrest
      rcases hkept with heq | ⟨hescape, hhead, rfl, heq⟩
      · have hopen' : opensEscape false (p.drop ax.2) = false := by
          by_cases hdrop : p.drop ax.2 = []
          · rw [hdrop]
            rfl
          · rw [← hscan] at hle hdrop ⊢
            rw [← opensEscape_scan hle (List.cons_ne_nil d r) (.inr hdrop), hopen]
        have hcons {ts : List Token} (hts : tokens (p.drop ax.2 ++ z) = ts) : tokens (c :: p ++ z) = u :: ts := by
          rw [List.cons_append, tokens_cons, heq, List.take_append_of_le_length hle,
            List.drop_append_of_le_length hle, hts, hu]
        have hend' : spaceLength z = 0 ∨ (d :: r).head? = z.head? ∨
            ∀ e ∈ (p.drop ax.2).getLast?, isSpace e = false := by
          refine hend.imp_right (Or.imp_right fun hlast e he => hlast e ?_)
          rw [List.getLast?_drop] at he
          split at he
          · cases he
          · rw [List.getLast?_cons, Option.mem_def.1 he]
            rfl
        rcases ih htext hopen' (fun x hx => hbroken x (List.mem_cons_of_mem _ hx)) hend' hrest with
          hsame | ⟨hhead, ys, v, rfl, hescape, hgrown⟩
        · exact .inl (hcons hsame)
        · exact .inr ⟨hhead, u :: ys, v, rfl, hescape, hcons hgrown⟩
      · -- the token ends with the text
        rw [List.drop_length] at htext hrest
        obtain rfl : xs = [] := (flatMap_text_eq_nil hrest).1 htext
        refine .inr ⟨hhead, [], c :: p, by rw [hu, List.take_length]; rfl, hescape, ?_⟩
        have hcut : (p ++ z).take (p.length + spaceLength z) = p ++ z.take (spaceLength z) :=
          List.take_length_add_append _
        rw [List.cons_append, tokens_cons, heq, hcut, List.drop_length_add_append]
        rfl

end Token

end VendorCss
