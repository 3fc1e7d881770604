import VendorCss.Css.Component
import VendorCss.Proofs.Sheet.Spelling
import VendorCss.Proofs.Text.Cuts

/-!
# What components print

While a text is read, the components so far print what the tokens so far print (`Reader.written_step`): each token its
own characters, but for strings and comments, which are printed closed, and for names of functions, which are printed as
they are understood. What is open at the end is closed (`Reader.renderAll_finish`), so a closed text is printed back
unchanged (`renderAll_ofText`).
-/

namespace VendorCss

/-! ## Closed texts -/

/-- The open brackets after one more token, innermost first; only the bracket opened last can be closed. -/
def Bracket.after (opened : List Bracket) (t : Token) : List Bracket :=
  match t.kind.opens?, t.kind.closes? with
  | some b, _ => b :: opened
  | none, some b => if opened.head? = some b then opened.tail else opened
  | none, none => opened

/-- What is open around does not matter to a token inside. -/
theorem Bracket.after_append (b : Bracket) (inner outer : List Bracket) (t : Token) :
    after (b :: inner ++ outer) t = after (b :: inner) t ++ outer := by
  unfold after
  split
  · rfl
  · rename_i closed _ _
    by_cases h : b = closed
    · simp [h]
    · simp [h]
  · rfl

/-- The brackets that tokens leave open, innermost first. -/
def openBrackets (ts : List Token) : List Bracket := ts.foldl Bracket.after []

namespace Token

/-- A string has its quote at both ends, and a comment both of its marks. -/
def isClosed (t : Token) : Bool :=
  match t.kind, t.text with
  | .string, quote :: inside => inside.getLast? == some quote
  | .comment inside, text => text == "/*" ++ inside ++ "*/"
  | _, _ => true

/-- The name of a function is written as it is understood: without an escape, and without NUL. -/
def isPlainlyNamed (t : Token) : Bool :=
  match t.kind with
  | .function _ => t.text.all fun c => c != '\\' && c != '\x00'
  | _ => true

end Token

/-- Every function, parenthesis, string and comment of a text is closed, and no name of a function is disguised. -/
structure Text.IsClosed (t : Text) : Prop where
  brackets : .paren ∉ openBrackets (tokens t)
  tokens : ∀ x ∈ tokens t, x.isClosed = true
  names : ∀ x ∈ VendorCss.tokens t, x.isPlainlyNamed = true

/-! ## The characters of tokens -/

/-- Nothing is asked of the characters of such a token. -/
def TokenKind.IsFree (kind : TokenKind) : Prop :=
  kind.opens? ≠ some .paren ∧ kind.closes? ≠ some .paren ∧ kind ≠ .blank

namespace Token

theorem isBlank_of_isSpace {c : Char} (h : isSpace c = true) : isBlank c = true := by
  simp only [isSpace, isLineEnd, Bool.or_eq_true, beq_iff_eq] at h
  rcases h with (rfl | rfl) | (rfl | rfl) | rfl <;> decide

instance (kind : TokenKind) : Decidable kind.IsFree := inferInstanceAs (Decidable (_ ∧ _ ∧ _))

/-- The characters of a token are those that its kind is read from. -/
def IsRead (t : Token) : Prop :=
  match t.kind with
  | .function name => ∃ raw, t.text = raw ++ ['('] ∧ name = unescape raw
  | .openBracket .paren => t.text = ['(']
  | .closeBracket .paren => t.text = [')']
  | .blank => ∀ c ∈ t.text, isSpace c = true
  | _ => t.text ≠ []

/-- What the scanner answers for the text `c :: t` is read from its characters. -/
def ReadsAs (c : Char) (t : Text) (answer : TokenKind × Nat) : Prop := IsRead ⟨answer.1, c :: t.take answer.2⟩

theorem readsAs_of_isFree {c : Char} {t : Text} {answer : TokenKind × Nat} (h : answer.1.IsFree) :
    ReadsAs c t answer := by
  obtain ⟨hopens, hcloses, hblank⟩ := h
  unfold ReadsAs IsRead
  split
  · exact absurd (by simp_all [TokenKind.opens?]) hopens
  · exact absurd (by simp_all [TokenKind.opens?]) hopens
  · exact absurd (by simp_all [TokenKind.closes?]) hcloses
  · exact absurd (by simp_all) hblank
  · exact List.cons_ne_nil _ _

theorem stringToken_isFree (quote : Char) (skip : Nat) (t : Text) : (stringToken quote skip t).1.IsFree := by
  fun_induction stringToken quote skip t <;> simp_all [TokenKind.IsFree, TokenKind.opens?, TokenKind.closes?]

theorem readsAs_nameToken (c : Char) (t : Text) : ReadsAs c t ((nameToken (c :: t)).map id (· - 1)) := by
  unfold nameToken
  generalize nameLength 0 (c :: t) = n
  dsimp only
  split
  · rename_i rest hrest
    split
    · exact readsAs_of_isFree ⟨nofun, nofun, nofun⟩
    · have htake : (c :: t).take (n + 1) = (c :: t).take n ++ ['('] := by
        rw [List.take_add, hrest]
        rfl
      exact ⟨(c :: t).take n, htake, rfl⟩
  · exact readsAs_of_isFree ⟨nofun, nofun, nofun⟩

theorem readsAs_ite {c : Char} {t : Text} {p : Prop} [Decidable p] {x y : TokenKind × Nat}
    (hx : p → ReadsAs c t x) (hy : ReadsAs c t y) : ReadsAs c t (if p then x else y) := by
  split
  · exact hx ‹_›
  · exact hy

theorem readsAs_blank {c : Char} (t : Text) (h : isSpace c = true) :
    ReadsAs c t (.blank, (t.takeWhile isSpace).length) := by
  intro d hd
  rcases List.mem_cons.1 hd with rfl | hd
  · exact h
  · rw [← List.prefix_iff_eq_take.1 (List.takeWhile_prefix isSpace)] at hd
    exact List.mem_takeWhile_imp hd

theorem readsAs_scan (c : Char) (t : Text) : ReadsAs c t (scan c t) := by
  have free {kind : TokenKind} {n : Nat} (h : kind.IsFree) : ReadsAs c t (kind, n) := readsAs_of_isFree h
  have word {n : Nat} : ReadsAs c t (.word, n) := free ⟨nofun, nofun, nofun⟩
  unfold scan
  refine readsAs_ite (fun h => readsAs_blank t h) ?_
  refine readsAs_ite (fun _ => readsAs_of_isFree (stringToken_isFree _ _ _)) ?_
  refine readsAs_ite (fun h => by subst h; rfl) ?_
  refine readsAs_ite (fun _ => free (by decide)) ?_
  refine readsAs_ite (fun _ => free (by decide)) ?_
  refine readsAs_ite (fun h => by subst h; rfl) ?_
  refine readsAs_ite (fun _ => free (by decide)) ?_
  refine readsAs_ite (fun _ => free (by decide)) ?_
  refine readsAs_ite (fun _ => free (by decide)) ?_
  refine readsAs_ite (fun _ => free (by decide)) ?_
  refine readsAs_ite (fun _ => free (by decide)) ?_
  refine readsAs_ite (fun _ => ?_) ?_
  · split <;> exact free ⟨nofun, nofun, nofun⟩
  -- what follows are words, and names
  refine readsAs_ite (fun _ => word) (readsAs_ite (fun _ => word) (readsAs_ite (fun _ => word) ?_))
  refine readsAs_ite (fun _ => word) (readsAs_ite (fun _ => word) (readsAs_ite (fun _ => word) ?_))
  refine readsAs_ite (fun _ => ?_) (readsAs_ite (fun _ => readsAs_nameToken c t) word)
  refine readsAs_ite (fun _ => word) (readsAs_ite (fun _ => word) ?_)
  exact readsAs_ite (fun _ => readsAs_nameToken c t) word

/-- What holds of every answer of the scanner holds of every token. -/
theorem tokensWithin_forall {P : Token → Prop} (h : ∀ c t, P ⟨(scan c t).1, c :: t.take (scan c t).2⟩) (fuel : Nat)
    (t : Text) : ∀ x ∈ tokensWithin fuel t, P x := by
  fun_induction tokensWithin fuel t with
  | case1 | case2 => exact fun _ hx => (List.not_mem_nil hx).elim
  | case3 fuel c t kind n hscan ih =>
    intro x hx
    rcases List.mem_cons.1 hx with rfl | hx
    · have hanswer := h c t
      rwa [hscan] at hanswer
    · exact ih x hx

/-- Nothing in the name has another meaning than itself. -/
theorem unescape_eq_self {t : Text} (hescape : '\\' ∉ t) (hnul : '\x00' ∉ t) : unescape t = t := by
  rw [unescape]
  induction t with
  | nil => rfl
  | cons c t ih =>
    rw [List.mem_cons, not_or] at hescape hnul
    rw [unescapeFrom, if_neg (Ne.symm hescape.1), if_neg (Ne.symm hnul.1), ih hescape.2 hnul.2]

end Token

/-- Every token of a text is read from its characters. -/
theorem tokens_isRead (t : Text) : ∀ x ∈ tokens t, x.IsRead := Token.tokensWithin_forall Token.readsAs_scan _ t

namespace Component

/-! ## What one token prints -/

/-- What a token prints outside of blocks. -/
def printed (t : Token) : Text :=
  match t.kind with
  | .function name => name ++ ['(']
  | .comment inside => "/*" ++ inside ++ "*/"
  | .string => (ofQuoted t.text).render
  | _ => t.text

theorem render_ofQuoted {quote : Char} {inside : Text} (h : inside.getLast? = some quote) :
    (ofQuoted (quote :: inside)).render = quote :: inside := by
  obtain ⟨start, rfl⟩ : ∃ start, inside = start ++ [quote] := List.getLast?_eq_some_iff.1 h
  have hdrop : Text.dropEnd? [quote] (start ++ [quote]) = some start := by
    rw [Text.dropEnd?, List.reverse_append, Text.dropStart?_append, Option.map_some, List.reverse_reverse]
  rw [ofQuoted, hdrop]
  rfl

/-- A closed token prints its characters. -/
theorem printed_eq_text {x : Token} (hread : x.IsRead) (hclosed : x.isClosed = true)
    (hname : x.isPlainlyNamed = true) : printed x = x.text := by
  obtain ⟨kind, text⟩ := x
  unfold printed
  cases kind with
  | function name =>
    obtain ⟨raw, rfl, rfl⟩ := hread
    have hall : ∀ c ∈ raw, c ≠ '\\' ∧ c ≠ '\x00' := by
      simpa [Token.isPlainlyNamed, or_imp, forall_and] using hname
    have hself := Token.unescape_eq_self (fun h => (hall _ h).1 rfl) fun h => (hall _ h).2 rfl
    simp only [hself]
  | comment inside => exact (eq_of_beq hclosed).symm
  | string =>
    cases text with
    | nil => exact absurd rfl hread
    | cons quote inside => exact render_ofQuoted (eq_of_beq hclosed)
  | _ => rfl

/-! ## What components print -/

theorem render_word (t : Text) : (word t).render = t := rfl

theorem render_space (t : Text) : (space t).render = t := rfl

theorem render_div (t before after : Text) : (div t before after).render = before ++ t ++ after := rfl

theorem render_comment (t : Text) : (comment t).render = "/*" ++ t ++ "*/" := rfl

theorem render_function (name before after : Text) (args : List Component) :
    (function name before after args).render = name ++ '(' :: before ++ renderAll args ++ after ++ [')'] := rfl

theorem renderAll_nil : renderAll [] = [] := rfl

theorem renderAll_cons (c : Component) (cs : List Component) : renderAll (c :: cs) = render c ++ renderAll cs := rfl

theorem renderAll_append (cs ds : List Component) : renderAll (cs ++ ds) = renderAll cs ++ renderAll ds := by
  induction cs with
  | nil => rfl
  | cons c cs ih => rw [List.cons_append, renderAll_cons, renderAll_cons, ih, List.append_assoc]

theorem renderAll_reverse_cons (c : Component) (cs : Reversed) :
    renderAll (c :: cs).reverse = renderAll cs.reverse ++ c.render := by
  rw [List.reverse_cons, renderAll_append, renderAll_cons, renderAll_nil, List.append_nil]

theorem renderAll_pushWord (t : Text) (cs : Reversed) :
    renderAll (pushWord t cs).reverse = renderAll cs.reverse ++ t := by
  unfold pushWord
  split
  · rw [renderAll_reverse_cons, renderAll_reverse_cons, render_word, render_word, List.append_assoc]
  · rw [renderAll_reverse_cons, render_word]

theorem renderAll_pushSpace (t : Text) (cs : Reversed) :
    renderAll (pushSpace t cs).reverse = renderAll cs.reverse ++ t := by
  unfold pushSpace
  split
  · split
    · rename_i hafter
      rw [List.isEmpty_iff.1 hafter]
      simp only [renderAll_reverse_cons, render_div, List.append_nil, List.append_assoc]
    · simp only [renderAll_reverse_cons, render_space]
  · simp only [renderAll_reverse_cons, render_space, List.append_assoc]
  · rw [renderAll_reverse_cons, render_space]

theorem renderAll_pushDiv (sign : Text) (cs : Reversed) :
    renderAll (pushDiv sign cs).reverse = renderAll cs.reverse ++ sign := by
  unfold pushDiv
  split <;> simp only [renderAll_reverse_cons, render_space, render_div, List.append_nil, List.nil_append,
    List.append_assoc]

/-- White space at the end of the arguments is printed before the bracket. -/
theorem render_spaceAfter (name before : Text) (cs : List Component) :
    (match cs.reverse with
      | space s :: ds => function name before s ds.reverse
      | _ => function name before [] cs).render = name ++ '(' :: (before ++ renderAll cs) ++ [')'] := by
  split
  · rename_i s ds hcs
    rw [List.reverse_eq_cons_iff.1 hcs, renderAll_append]
    simp only [render_space, render_function, renderAll_nil, renderAll_cons, List.append_nil, List.append_assoc,
      List.cons_append]
  · simp only [render_function, List.append_nil, List.append_assoc, List.cons_append]

theorem render_ofArgs (name : Text) (args : List Component) :
    (ofArgs name args).render = name ++ '(' :: renderAll args ++ [')'] := by
  unfold ofArgs
  cases args with
  | nil => exact render_spaceAfter name [] []
  | cons c cs =>
    cases c with
    | space s => exact render_spaceAfter name s cs
    | _ => exact render_spaceAfter name [] _

/-! ## The reader -/

namespace Reader

/-- The text that the functions around a place begin with. -/
def opening (outer : List (Text × Reversed)) : Text :=
  outer.reverse.flatMap fun (name, items) => renderAll items.reverse ++ name ++ ['(']

/-- What the components read so far print. -/
def written (r : Reader) : Text := opening r.outer ++ renderAll r.items.reverse

theorem opening_cons (name : Text) (items : Reversed) (outer : List (Text × Reversed)) :
    opening ((name, items) :: outer) = opening outer ++ renderAll items.reverse ++ name ++ ['('] := by
  simp [opening, List.append_assoc]

/-- What a token adds: inside of a block its characters, otherwise what it prints. -/
def adds (r : Reader) (t : Token) : Text := if r.block.isEmpty then printed t else t.text

theorem written_inBlock (r : Reader) (t : Token) : (r.inBlock t).written = r.written ++ t.text := by
  simp only [written, inBlock, renderAll_pushWord, List.append_assoc]

/-- One more token adds its characters. -/
theorem written_step (r : Reader) {t : Token} (ht : t.IsRead) : (r.step t).written = r.written ++ r.adds t := by
  obtain ⟨kind, text⟩ := t
  obtain ⟨items, outer, block⟩ := r
  unfold step adds
  cases block with
  | cons b block => exact written_inBlock _ _
  | nil =>
    simp only [List.isEmpty_nil, Bool.not_true, Bool.false_eq_true, ↓reduceIte]
    have hword (block : List Bracket) : (⟨pushWord text items, outer, block⟩ : Reader).written =
        (⟨items, outer, []⟩ : Reader).written ++ text := by
      simp only [written, renderAll_pushWord, List.append_assoc]
    cases kind with
    | blank => simp only [written, printed, renderAll_pushSpace, List.append_assoc]
    | comma | colon | slash => simp only [written, printed, renderAll_pushDiv, List.append_assoc]
    | comment inside => simp only [written, printed, renderAll_reverse_cons, render_comment, List.append_assoc]
    | string => simp only [written, printed, renderAll_reverse_cons, List.append_assoc]
    | function name =>
      simp only [written, printed, opening_cons, List.reverse_nil, renderAll_nil, List.append_nil, List.append_assoc]
    | openBracket b =>
      cases b with
      | paren =>
        rw [show text = ['('] from ht]
        simp only [written, printed, opening_cons, List.reverse_nil, renderAll_nil, List.append_nil, List.append_assoc]
      | square | curly => exact hword _
    | closeBracket b =>
      cases b with
      | paren =>
        cases outer with
        | nil => exact hword _
        | cons enclosing outer =>
          obtain ⟨name, before⟩ := enclosing
          rw [show text = [')'] from ht]
          simp only [written, printed, opening_cons, renderAll_reverse_cons, render_ofArgs, List.append_assoc,
            List.cons_append, List.nil_append]
      | square | curly => exact hword _
    | semicolon | word => exact hword _

/-- The tokens of a closed text add their characters. -/
theorem written_foldl {ts : List Token} (hread : ∀ x ∈ ts, x.IsRead) (hprinted : ∀ x ∈ ts, printed x = x.text)
    (r : Reader) : (ts.foldl step r).written = r.written ++ ts.flatMap Token.text := by
  induction ts generalizing r with
  | nil => exact (List.append_nil _).symm
  | cons t ts ih =>
    rw [List.forall_mem_cons] at hread hprinted
    have hadds : r.adds t = t.text := by
      rw [adds, hprinted.1, ite_self]
    rw [List.foldl_cons, ih hread.2 hprinted.2, written_step r hread.1, hadds, List.flatMap_cons, List.append_assoc]

/-- At the end what is open is closed. -/
theorem renderAll_finish (items : Reversed) (outer : List (Text × Reversed)) :
    renderAll (finish items outer) = opening outer ++ renderAll items.reverse ++ List.replicate outer.length ')' := by
  induction outer generalizing items with
  | nil => simp [finish, opening]
  | cons enclosing outer ih =>
    obtain ⟨name, before⟩ := enclosing
    rw [finish, ih, opening_cons, renderAll_reverse_cons, render_ofArgs, List.length_cons, List.replicate_succ]
    simp only [List.append_assoc, List.cons_append, List.nil_append]

/-! ## Brackets -/

/-- The brackets open after the tokens read so far, innermost first. -/
def brackets (r : Reader) : List Bracket := r.block ++ r.outer.map fun _ => .paren

/-- A bracket that a reader waits for in a block, or the parenthesis of a function, is the only one that can be closed. -/
theorem brackets_step (r : Reader) (t : Token) : (r.step t).brackets = Bracket.after r.brackets t := by
  obtain ⟨kind, text⟩ := t
  obtain ⟨items, outer, block⟩ := r
  unfold step
  cases block with
  | cons b block =>
    exact (Bracket.after_append b block _ _).symm
  | nil =>
    cases kind with
    | openBracket b => cases b <;> rfl
    | closeBracket b => cases b <;> cases outer <;> rfl
    | _ => rfl

theorem brackets_foldl (ts : List Token) (r : Reader) :
    (ts.foldl step r).brackets = ts.foldl Bracket.after r.brackets := by
  induction ts generalizing r with
  | nil => rfl
  | cons t ts ih => rw [List.foldl_cons, List.foldl_cons, ih, brackets_step]

/-- No function is open where no parenthesis is. -/
theorem outer_eq_nil {ts : List Token} (h : .paren ∉ openBrackets ts) : (ts.foldl step {}).outer = [] := by
  have hbrackets : (ts.foldl step {}).brackets = openBrackets ts := brackets_foldl ts {}
  rw [← hbrackets, brackets, List.mem_append, not_or] at h
  cases houter : (ts.foldl step {}).outer with
  | nil => rfl
  | cons enclosing outer =>
    rw [houter] at h
    exact absurd List.mem_cons_self h.2

end Reader

/-- A closed text is printed back. -/
theorem renderAll_ofText {t : Text} (h : t.IsClosed) : renderAll (ofText t) = t := by
  have hread := tokens_isRead t
  have hprinted : ∀ x ∈ tokens t, printed x = x.text := fun x hx =>
    printed_eq_text (hread x hx) (h.tokens x hx) (h.names x hx)
  have hwritten := Reader.written_foldl hread hprinted {}
  rw [tokens_text] at hwritten
  rw [ofText, Reader.renderAll_finish, Reader.outer_eq_nil h.brackets]
  rw [Reader.written, Reader.outer_eq_nil h.brackets] at hwritten
  simpa [Reader.written, Reader.opening, renderAll] using hwritten

end Component

end VendorCss
