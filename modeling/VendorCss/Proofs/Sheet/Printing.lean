import VendorCss.Proofs.Forest.Basic
import VendorCss.Proofs.Sheet.Statement

/-!
# Reading and printing a stylesheet

A sheet prints as the text that it was read from, with two changes (`render_parse`): the loose blanks of declarations go,
and what the text leaves open is closed. The outline of the text says which blanks are loose and what is open.

The proof follows the reader token by token. `SheetReader.written` is what the frames print so far, without the statement
begun; it equals what the stretches of the outline keep (`Follows`), and a token adds the same on both sides
(`follows_step`). Whether the last statement of a frame prints a semicolon is settled only when the frame closes; until
then it prints one, and a frame between two statements knows already that it will (`Frame.IsSettled`).
-/

namespace VendorCss

/-! ## Runs printed -/

namespace Forest

theorem hasStatement_append (f g : Forest) : (f ++ g).hasStatement = (f.hasStatement || g.hasStatement) := by
  induction f with
  | nil => rfl
  | cons i n k r _ ih => simp [hasStatement, ih, Bool.or_assoc]

/-- Statements of the first run end with a semicolon if one of the second run follows. -/
theorem render_append (f g : Forest) (trailing : Bool) :
    (f ++ g).render trailing = f.render (trailing || g.hasStatement) ++ g.render trailing := by
  induction f with
  | nil => rfl
  | cons i n k r _ ih =>
    have h : (trailing || (r ++ g).hasStatement) = (trailing || g.hasStatement || r.hasStatement) := by
      rw [hasStatement_append, Bool.or_comm r.hasStatement, Bool.or_assoc]
    rw [cons_append, render, render, ih, h, List.append_assoc]

/-- A run with one more node: all statements before a node that is one end with a semicolon. -/
theorem render_append_tree (f : Forest) (i : Nat) (n : Node) (k : Forest) (trailing : Bool) :
    (f ++ tree i n k).render trailing =
      f.render (trailing || !n.isComment) ++ n.render (k.render n.raws.semicolon) trailing := by
  simp [render_append, tree, hasStatement, render]

end Forest

/-! ## Frames -/

namespace Frame

/-- What a frame prints for the nodes already read and the white space after them. -/
def settled (f : Frame) : Text := f.kids.render true ++ f.pending

/-- The text of the statement begun. -/
def begun (f : Frame) : Text := (f.statement.map Prod.fst).getD []

/-- A frame between two statements prints its nodes as if another statement followed. -/
def IsSettled (f : Frame) : Prop := f.statement = none → f.kids.render f.semicolon = f.kids.render true

/-- A frame around another one waits for it: no statement is begun and no white space is left. -/
def IsWaiting (f : Frame) : Prop := f.statement = none ∧ f.pending = []

/-- The text of a closed frame between its brackets. -/
def body (f : Frame) : Text := f.kids.render f.node.raws.semicolon ++ f.node.raws.after

/-- A new node prints after what the frame prints so far. -/
theorem settled_push (f : Frame) (id : Nat) {node : Node} (source : Position) (kids : Forest)
    (hb : node.raws.before = []) (hr : node.content ≠ .root) :
    (f.push id node source kids).settled = f.settled ++ node.render (kids.render node.raws.semicolon) true := by
  have hp : (f.push id node source kids).settled =
      f.kids.render true ++ (node.withBefore f.pending).render (kids.render node.raws.semicolon) true := by
    rw [settled, push]
    dsimp only
    rw [List.append_nil, Forest.render_append_tree]
    rfl
  rw [hp, Node.render_withBefore _ hb hr, settled, List.append_assoc]

/-- A statement that its semicolon ends. -/
def endStatement (f : Frame) (id : Nat) (text : Text) (source : Position) : Frame :=
  { f.push id (Statement.node text false) source .nil with statement := none, semicolon := true }

theorem settled_endStatement (f : Frame) (id : Nat) (text : Text) (source : Position) :
    (f.endStatement id text source).settled = f.settled ++ (Outline.ended text).kept ++ [';'] := by
  have h := f.settled_push id source .nil (Statement.before_node text false) (Statement.content_node text false)
  rw [show (Forest.nil.render _ : Text) = [] from rfl, Statement.render_node_ended, ← List.append_assoc] at h
  exact h

/-! ### Closing -/

/-- The last statement of a block, which no semicolon ends. -/
def endLast (f : Frame) (id : Nat) (text : Text) (source : Position) : Frame :=
  { f.push id (Statement.node text.trimEnd true) source .nil with
    statement := none, pending := text.trailingBlanks, semicolon := false }

/-- The frame whose node knows how its block ends. -/
def sealed (f : Frame) : Frame :=
  { f with node := { f.node with raws := { f.node.raws with after := f.pending, semicolon := f.semicolon } } }

theorem close_of_none {f : Frame} (h : f.statement = none) (next : Nat) : f.close next = (f.sealed, next) := by
  rw [close, h]
  rfl

theorem close_of_some {f : Frame} {text : Text} {source : Position} (h : f.statement = some (text, source))
    (next : Nat) : f.close next = ((f.endLast next text source).sealed, next + 1) := by
  rw [close, h]
  rfl

/-- The last statement prints without a semicolon, and nothing is lost. -/
theorem render_endLast (f : Frame) (id : Nat) (text : Text) (source : Position) :
    (f.endLast id text source).kids.render false ++ (f.endLast id text source).pending = f.settled ++ text := by
  have hn := Statement.render_node_atEnd (Text.trimEnd_trimEnd text)
  have hp := Node.render_withBefore f.pending (Statement.before_node text.trimEnd true)
    (Statement.content_node text.trimEnd true) [] false
  have hk : (f.endLast id text source).kids.render false =
      f.kids.render true ++ ((Statement.node text.trimEnd true).withBefore f.pending).render [] false := by
    dsimp only [endLast, push]
    rw [Forest.render_append_tree]
    exact congrArg (fun c => f.kids.render (false || !c) ++ _) (Statement.isComment_node text.trimEnd true)
  rw [hk, hp, hn, settled]
  dsimp only [endLast]
  rw [List.append_assoc, List.append_assoc, Text.trimEnd_append_trailingBlanks, List.append_assoc]

/-- A closed frame has the text that it had before, with the statement begun. -/
theorem body_close (f : Frame) (h : f.IsSettled) (next : Nat) : (f.close next).1.body = f.settled ++ f.begun := by
  cases hs : f.statement with
  | none =>
    rw [close_of_none hs, begun, hs, settled, ← h hs]
    exact (List.append_nil _).symm
  | some st =>
    rw [close_of_some hs, begun, hs]
    exact render_endLast f next st.1 st.2

theorem node_close (f : Frame) (next : Nat) :
    (f.close next).1.node.opening = f.node.opening ∧ (f.close next).1.node.content = f.node.content := by
  cases hs : f.statement with
  | none => rw [close_of_none hs]; exact ⟨rfl, rfl⟩
  | some st => rw [close_of_some hs]; exact ⟨rfl, rfl⟩

/-- A closed block prints inside the frame around it. -/
theorem settled_into (f outer : Frame) (hf : f.node.isBlock = true) (ho : outer.IsWaiting) :
    (f.into outer).settled = outer.settled ++ f.node.opening ++ f.body ++ ['\x7d'] := by
  simp [settled, into, ho.2, Forest.render_append_tree, Node.render_of_isBlock hf, body]

theorem isSettled_into (f outer : Frame) (hf : f.node.isBlock = true) : (f.into outer).IsSettled := by
  intro _
  simp [into, Forest.render_append_tree, Node.render_of_isBlock hf, Node.isComment_of_isBlock hf]

end Frame

/-! ## The reader -/

namespace SheetReader

/-- What the frames print so far, without the statement begun. -/
def writtenWithin (f : Frame) : (outer : List Frame) → Text
  | [] => f.settled
  | g :: outer => writtenWithin g outer ++ f.node.opening ++ f.settled

def written (r : SheetReader) : Text := writtenWithin r.frame r.outer

/-- Frames inside each other: the outermost one is that of the root, every other one has a node with a block, and the
frame around it waits. -/
def Nested (f : Frame) : (outer : List Frame) → Prop
  | [] => f.node.content = .root
  | g :: outer => f.node.isBlock = true ∧ g.IsWaiting ∧ Nested g outer

theorem nested_congr (f f' : Frame) (hn : f'.node.content = f.node.content) {outer : List Frame}
    (h : Nested f outer) : Nested f' outer := by
  cases outer with
  | nil => exact hn.trans h
  | cons g outer => exact ⟨(Node.isBlock_congr hn).trans h.1, h.2⟩

/-- What the innermost frame prints more is printed at the end. -/
theorem writtenWithin_append (f f' : Frame) {more : Text} (hn : f'.node.opening = f.node.opening)
    (hs : f'.settled = f.settled ++ more) (outer : List Frame) :
    writtenWithin f' outer = writtenWithin f outer ++ more := by
  cases outer with
  | nil => exact hs
  | cons g outer => simp only [writtenWithin, hn, hs, List.append_assoc]

theorem writtenWithin_congr (f f' : Frame) (hn : f'.node.opening = f.node.opening) (hs : f'.settled = f.settled)
    (outer : List Frame) : writtenWithin f' outer = writtenWithin f outer := by
  cases outer with
  | nil => exact hs
  | cons g outer => simp only [writtenWithin, hn, hs]

/-- A block that ends goes into the frame around it, which has written it then. -/
theorem close_into {f g : Frame} {outer : List Frame} (hn : Nested f (g :: outer)) (hs : f.IsSettled) (next : Nat) :
    let f' := (f.close next).1.into g
    f'.statement = none ∧ f'.IsSettled ∧ Nested f' outer ∧
      writtenWithin f' outer = writtenWithin f (g :: outer) ++ (f.begun ++ ['\x7d']) := by
  obtain ⟨hblock, hwait, hnest⟩ := hn
  obtain ⟨hopen, hcontent⟩ := f.node_close next
  have hb : (f.close next).1.node.isBlock = true := (Node.isBlock_congr hcontent).trans hblock
  have hset : ((f.close next).1.into g).settled =
      g.settled ++ (f.node.opening ++ f.settled ++ (f.begun ++ ['\x7d'])) := by
    rw [Frame.settled_into _ g hb hwait, hopen, Frame.body_close f hs]
    simp only [List.append_assoc]
  refine ⟨hwait.1, Frame.isSettled_into _ g hb, nested_congr g ((f.close next).1.into g) rfl hnest, ?_⟩
  rw [writtenWithin_append g ((f.close next).1.into g) rfl hset outer, writtenWithin]
  simp only [List.append_assoc]

/-- The sheet prints what the frames have written, the statement begun, and a bracket for each block. -/
theorem render_closeAll {f : Frame} {outer : List Frame} (hn : Nested f outer) (hs : f.IsSettled) (next : Nat) :
    let root := (closeAll next f outer).1
    root.node.render (root.kids.render root.node.raws.semicolon) false =
      writtenWithin f outer ++ f.begun ++ List.replicate outer.length '\x7d' := by
  induction outer generalizing f next with
  | nil =>
    have hc : (f.close next).1.node.content = .root := (f.node_close next).2.trans hn
    have hb := f.body_close hs next
    rw [Frame.body] at hb
    simp only [closeAll, Node.render, hc, hb, writtenWithin, List.length_nil, List.replicate_zero, List.append_nil]
  | cons g outer ih =>
    obtain ⟨hst, hset, hnest, hw⟩ := close_into hn hs next
    have h := ih hnest hset (f.close next).2
    rw [Frame.begun, hst, hw] at h
    simp only [closeAll]
    rw [h, List.length_cons, List.replicate_succ]
    simp

/-! ## The reader follows the outline -/

/-- The reader stands where the outline does, and has written `kept`; only the end of an open comment is written in
advance. -/
structure Follows (o : Outline) (r : SheetReader) (kept : Text) : Prop where
  depth : o.depth = r.outer.length
  statement : o.statement = r.frame.statement.map Prod.fst
  skipping : o.skipping = r.skipping
  begun : r.skipping ≠ [] → r.frame.statement.isSome = true
  between : o.openComment = true → o.statement = none
  settled : r.frame.IsSettled
  nested : Nested r.frame r.outer
  written : r.written = if o.openComment then kept ++ "*/" else kept

variable {o : Outline} {r : SheetReader} {kept : Text} {t : Token}

theorem Follows.begun_eq (h : Follows o r kept) : o.begun = r.frame.begun := by
  rw [Outline.begun, h.statement]
  rfl

/-- The position plays no part. -/
theorem Follows.at_position (h : Follows o r kept) (position : Position) : Follows o { r with position } kept :=
  ⟨h.depth, h.statement, h.skipping, h.begun, h.between, h.settled, h.nested, h.written⟩

theorem Follows.written_of_closed (h : Follows o r kept) (hc : o.openComment = false) : r.written = kept := by
  rw [h.written, hc]
  rfl

/-- A token that goes to the statement: the nodes read and the white space stay. -/
theorem Follows.more (h : Follows o r kept) (hc : o.openComment = false) {frame : Frame} {skipping : List Bracket}
    (hs : frame.statement.map Prod.fst = some (o.begun ++ t.text)) (hn : frame.node = r.frame.node)
    (hw : frame.settled = r.frame.settled) :
    Follows (o.extend t skipping) { r with frame, skipping } kept := by
  have hst : frame.statement.isSome = true := by
    rw [← Option.isSome_map, hs]
    rfl
  exact {
    depth := h.depth
    statement := hs.symm
    skipping := rfl
    begun := fun _ => hst
    between := fun ho => by cases ho
    settled := fun hnone => by rw [hnone] at hst; cases hst
    nested := nested_congr r.frame frame (by rw [hn]) h.nested
    written := (writtenWithin_congr r.frame frame (by rw [hn]) hw r.outer).trans (h.written_of_closed hc) }

/-- A token inside brackets. -/
theorem follows_skip (h : Follows o r kept) (hc : o.openComment = false) (hs : r.skipping ≠ []) :
    Follows (o.extend t (Outline.bracketsAfter o.skipping t)) (r.skip t) kept := by
  obtain ⟨⟨text, source⟩, hst⟩ := Option.isSome_iff_exists.1 (h.begun hs)
  have hb : o.begun = text := by
    rw [h.begun_eq, Frame.begun, hst]
    rfl
  rw [h.skipping]
  exact h.more hc (by simp [hst, hb]) rfl rfl

/-- A token of a statement. -/
theorem follows_extend (h : Follows o r kept) (hc : o.openComment = false) :
    Follows (o.extend t t.kind.opens?.toList) (r.extend t) kept := by
  have hb := h.begun_eq
  unfold extend
  cases hst : r.frame.statement with
  | none =>
    rw [Frame.begun, hst] at hb
    exact h.more hc (by simp [hb]) rfl rfl
  | some st =>
    rw [Frame.begun, hst] at hb
    exact h.more hc (by simp [hb]) rfl rfl

/-- A token after which no statement is begun: the frame has printed `more`. -/
theorem Follows.between_statements (h : Follows o r kept) (hc : o.openComment = false) (hk : r.skipping = [])
    {frame : Frame} {next : Nat} {kept' : Text} {openComment : Bool} (hs : frame.statement = none)
    (hn : frame.node = r.frame.node) (hset : frame.IsSettled) (more : Text)
    (hw : frame.settled = r.frame.settled ++ more)
    (hmore : kept ++ more = if openComment then kept' ++ "*/" else kept') :
    Follows { depth := o.depth, openComment } { r with next, frame } kept' where
  depth := h.depth
  statement := by rw [hs]; rfl
  skipping := hk.symm
  begun := fun hne => absurd hk hne
  between := fun _ => rfl
  settled := hset
  nested := nested_congr r.frame frame (by rw [hn]) h.nested
  written := by
    rw [← hmore, ← h.written_of_closed hc]
    exact writtenWithin_append r.frame frame (by rw [hn]) hw r.outer

/-- White space between statements. -/
theorem follows_blank (h : Follows o r kept) (hc : o.openComment = false) (hk : r.skipping = [])
    (hs : r.frame.statement = none) :
    Follows { depth := o.depth } { r with frame := { r.frame with pending := r.frame.pending ++ t.text } }
      (kept ++ t.text) := by
  refine h.between_statements hc hk hs rfl (fun _ => h.settled hs) t.text ?_ rfl
  rw [Frame.settled, Frame.settled, List.append_assoc]

/-- A semicolon that ends no statement. -/
theorem follows_stray (h : Follows o r kept) (hc : o.openComment = false) (hk : r.skipping = [])
    (hs : r.frame.statement = none) :
    Follows { depth := o.depth }
      { r with frame := { r.frame with pending := r.frame.pending ++ t.text, semicolon := true } }
      (kept ++ t.text) := by
  refine h.between_statements hc hk hs rfl (fun _ => rfl) t.text ?_ rfl
  rw [Frame.settled, Frame.settled, List.append_assoc]

/-- A comment between statements. -/
theorem follows_comment (h : Follows o r kept) (hc : o.openComment = false) (hk : r.skipping = [])
    (hs : r.frame.statement = none) {inside : Text} (hkind : t.kind = .comment inside)
    (ht : t.text = "/*" ++ inside ∨ t.text = "/*" ++ inside ++ "*/") :
    Follows { depth := o.depth, openComment := t.isOpenComment }
      { r with next := r.next + 1, frame := r.frame.push r.next (.comment inside) r.position .nil }
      (kept ++ t.text) := by
  refine h.between_statements hc hk hs rfl (fun _ => ?_) ("/*" ++ inside ++ "*/") ?_ ?_
  · -- a comment prints the same whatever follows
    have hr : ∀ b, (r.frame.push r.next (.comment inside) r.position .nil).kids.render b =
        r.frame.kids.render b ++ (r.frame.pending ++ "/*" ++ inside ++ "*/") := by
      intro b
      dsimp only [Frame.push]
      rw [Forest.render_append_tree]
      exact congrArg (fun c => Forest.render c _ ++ _) (Bool.or_false b)
    rw [hr, hr]
    exact congrArg (· ++ _) (h.settled hs)
  · exact r.frame.settled_push r.next r.position .nil rfl Content.noConfusion
  · unfold Token.isOpenComment
    rw [hkind]
    rcases ht with ht | ht
    · rw [ht]
      simp
    · rw [ht]
      simp

/-- A semicolon that ends a statement. -/
theorem follows_ended (h : Follows o r kept) (hc : o.openComment = false) (hk : r.skipping = [])
    (text : Text) (source : Position) (ht : t.text = [';']) :
    Follows { depth := o.depth } { r with next := r.next + 1, frame := r.frame.endStatement r.next text source }
      (kept ++ ((Outline.ended text).kept ++ t.text)) := by
  refine h.between_statements hc hk rfl rfl (fun _ => rfl) ((Outline.ended text).kept ++ t.text) ?_ rfl
  rw [Frame.settled_endStatement, ht, List.append_assoc]

/-- The block of a new node. -/
theorem follows_open (h : Follows o r kept) (hc : o.openComment = false) (hk : r.skipping = [])
    (ht : t.text = ['\x7b']) (source : Position) :
    let node := { (Statement.blockNode o.begun).withBefore r.frame.pending with source := some source }
    Follows { depth := o.depth + 1 }
      { r with
        next := r.next + 1, frame := { id := r.next, node },
        outer := { r.frame with statement := none, pending := [], semicolon := false } :: r.outer }
      (kept ++ (o.begun ++ t.text)) := by
  intro node
  have hnode : node.opening = r.frame.pending ++ (o.begun ++ t.text) := by
    rw [ht, ← Statement.opening_blockNode]
    exact Node.opening_withBefore _ (Statement.before_blockNode _) (Statement.isBlock_blockNode _)
  let outer : Frame := { r.frame with statement := none, pending := [], semicolon := false }
  have hset : r.frame.settled = outer.settled ++ r.frame.pending := by simp [Frame.settled, outer]
  have hw : r.written = writtenWithin outer r.outer ++ r.frame.pending :=
    writtenWithin_append outer r.frame rfl hset r.outer
  exact {
    depth := by simp [h.depth]
    statement := rfl
    skipping := hk.symm
    begun := fun hne => absurd hk hne
    between := fun ho => by cases ho
    settled := fun _ => rfl
    nested := ⟨Statement.isBlock_blockNode o.begun, ⟨rfl, rfl⟩, nested_congr r.frame outer rfl h.nested⟩
    written := by
      show writtenWithin outer r.outer ++ node.opening ++ [] = kept ++ (o.begun ++ t.text)
      rw [← h.written_of_closed hc, hw, hnode, List.append_nil, List.append_assoc] }

/-- The end of a block. -/
theorem follows_close (h : Follows o r kept) (hc : o.openComment = false) (hk : r.skipping = [])
    (ht : t.text = ['\x7d']) {outer : Frame} {rest : List Frame} (ho : r.outer = outer :: rest) {depth : Nat}
    (hd : o.depth = depth + 1) :
    Follows { depth }
      { r with next := (r.frame.close r.next).2, frame := (r.frame.close r.next).1.into outer, outer := rest }
      (kept ++ (o.begun ++ t.text)) := by
  obtain ⟨hst, hset, hnest, hw⟩ := close_into (ho ▸ h.nested : Nested r.frame (outer :: rest)) h.settled r.next
  exact {
    depth := by simpa [ho, hd] using h.depth
    statement := by rw [hst]; rfl
    skipping := hk.symm
    begun := fun hne => absurd hk hne
    between := fun hne => by cases hne
    settled := hset
    nested := hnest
    written := by
      rw [← h.written_of_closed hc, written, written, ho, h.begun_eq, ht]
      exact hw }

/-- A curly bracket that opens a block, or the value of a custom property. -/
theorem follows_openBracket (h : Follows o r kept) (hc : o.openComment = false) (hk : r.skipping = [])
    (hkind : t.kind = .openBracket .curly) (ht : t.text = ['\x7b']) :
    let after : List Stretch × Outline :=
      if Statement.takesBlock o.begun then ([], o.extend t [.curly])
      else ([⟨o.begun ++ t.text, []⟩], { depth := o.depth + 1 })
    Follows after.2 (r.openBlock t) (kept ++ after.1.flatMap Stretch.kept) := by
  have hb : o.begun = (r.frame.statement.getD ([], r.position)).1 := by
    rw [h.begun_eq, Frame.begun]
    cases r.frame.statement <;> rfl
  intro after
  unfold openBlock
  dsimp only
  rw [← hb]
  by_cases hv : Statement.takesBlock o.begun
  · have he : Follows (o.extend t [.curly]) (r.extend t) kept := by
      have he := follows_extend (t := t) h hc
      rwa [hkind] at he
    simpa [after, hv] using he
  · have ho := follows_open h hc hk ht (r.frame.statement.getD ([], r.position)).2
    simpa [after, hv] using ho

/-- One token: the reader goes on to follow the outline, and what it writes more is what the stretches keep. -/
theorem follows_step (h : Follows o r kept) (hc : o.openComment = false) (ht : t.IsSpelled) :
    Follows (o.step t).2 (r.step t) (kept ++ (o.step t).1.flatMap Stretch.kept) := by
  unfold step
  apply Follows.at_position
  unfold Outline.step
  rw [h.skipping]
  by_cases hk : r.skipping = []
  · have hempty : (!r.skipping.isEmpty) = false := by rw [hk]; rfl
    simp only [hempty, Bool.false_eq_true, ↓reduceIte]
    have he : Follows (o.extend t t.kind.opens?.toList) (r.extend t) kept := follows_extend h hc
    unfold Token.IsSpelled at ht
    cases hkind : t.kind with
    | openBracket b =>
      rw [hkind] at ht
      cases b with
      | curly => simpa using follows_openBracket h hc hk hkind ht
      | paren | square => simpa [hkind] using he
    | closeBracket b =>
      rw [hkind] at ht he
      cases b with
      | curly =>
        cases ho : r.outer with
        | nil => simpa [h.depth, ho] using he
        | cons outer rest =>
          have hd : o.depth = rest.length + 1 := by rw [h.depth, ho]; rfl
          simpa [hd] using follows_close h hc hk ht ho hd
      | paren | square => simpa using he
    | semicolon =>
      rw [hkind] at ht he
      cases hs : r.frame.statement with
      | none => simpa [h.statement, hs] using follows_stray (t := t) h hc hk hs
      | some st =>
        have hf := follows_ended h hc hk st.1 st.2 ht
        simpa [h.statement, hs, Frame.endStatement] using hf
    | blank =>
      rw [hkind] at he
      cases hs : r.frame.statement with
      | none => simpa [h.statement, hs] using follows_blank (t := t) h hc hk hs
      | some st => simpa [h.statement, hs] using he
    | comment inside =>
      rw [hkind] at ht
      cases hs : r.frame.statement with
      | none => simpa [h.statement, hs] using follows_comment h hc hk hs hkind ht
      | some st => simpa [h.statement, hs, hkind] using he
    | colon | comma | slash | string | function _ | word => simpa [hkind] using he
  · have hne : (!r.skipping.isEmpty) = true := by simpa using hk
    simp only [hne, ↓reduceIte, List.flatMap_nil, List.append_nil]
    rw [← h.skipping]
    exact follows_skip h hc hk

/-- The tokens of a text, of which only the last one may be an open comment: the sheet read from them prints what was
written before, what the stretches keep, and what closes the text. -/
theorem render_finish_foldl (ts : List Token) (h : Follows o r kept) (hc : o.openComment = true → ts = [])
    (hspelled : ∀ t ∈ ts, t.IsSpelled) (hopen : ts.Pairwise fun x _ => x.isOpenComment = false) :
    (ts.foldl step r).finish.render = kept ++ (o.run ts).1.flatMap Stretch.kept ++ (o.run ts).2.closing := by
  induction ts generalizing o r kept with
  | nil =>
    have hf : r.finish.render = writtenWithin r.frame r.outer ++ r.frame.begun ++ List.replicate r.outer.length '\x7d' :=
      render_closeAll h.nested h.settled r.next
    have hw := h.written
    rw [written] at hw
    rw [List.foldl_nil, hf, hw, ← h.begun_eq, ← h.depth]
    cases ho : o.openComment with
    | false => simp [Outline.run, Outline.closing, ho]
    | true => simp [Outline.run, Outline.closing, ho, Outline.begun, h.between ho]
  | cons t ts ih =>
    have hfalse : o.openComment = false := Bool.eq_false_iff.2 fun ho => List.cons_ne_nil _ _ (hc ho)
    obtain ⟨hfollow, hopen⟩ := List.pairwise_cons.1 hopen
    have hnext : (o.step t).2.openComment = true → ts = [] := fun ho =>
      List.eq_nil_iff_forall_not_mem.2 fun x hx => by
        have hfalse := hfollow x hx
        rw [Outline.isOpenComment_of_step ho] at hfalse
        cases hfalse
    have hrest := ih (follows_step h hfalse (hspelled t List.mem_cons_self)) hnext
      (fun x hx => hspelled x (List.mem_cons_of_mem _ hx)) hopen
    simp only [List.foldl_cons, hrest, Outline.run, List.flatMap_append, List.append_assoc]

theorem follows_start : Follows {} start [] where
  depth := rfl
  statement := rfl
  skipping := rfl
  begun := fun hne => absurd rfl hne
  between := fun ho => by cases ho
  settled := fun _ => rfl
  nested := rfl
  written := rfl

end SheetReader

/-- The sheet of a text prints the kept parts of its stretches, and closes what is open. -/
theorem render_parse_stretches (t : Text) :
    (Sheet.parse t).render = (Outline.stretches t).flatMap Stretch.kept ++ (Outline.atEnd t).closing :=
  SheetReader.render_finish_foldl (tokens t) SheetReader.follows_start (fun h => by cases h) (tokens_isSpelled t)
    (tokens_pairwise t)

/-- Printing the sheet of a text gives the text back, stretch after stretch, with two changes: each loses its loose
blanks, which are those at the end of a declaration before its semicolon, and what is open at the end is closed. A text
without loose blanks that leaves nothing open is printed as it stands. -/
theorem render_parse (t : Text) :
    (Outline.stretches t).flatMap Stretch.text = t ∧
      (Sheet.parse t).render = (Outline.stretches t).flatMap Stretch.kept ++ (Outline.atEnd t).closing ∧
      (Outline.stretches t).IsChain Outline.LooseEndsDeclaration ∧
      (∀ s ∈ (Outline.stretches t).getLast?, s.loose = []) ∧
      ((∀ s ∈ Outline.stretches t, s.loose = []) → (Outline.atEnd t).openComment = false →
        (Outline.atEnd t).depth = 0 → (Sheet.parse t).render = t) := by
  obtain ⟨hchain, hlast⟩ := Outline.run_loose {} (tokens_isSpelled t)
  refine ⟨Outline.flatMap_stretches t, render_parse_stretches t, hchain, hlast, fun htight hcomment hdepth => ?_⟩
  have hclosing : (Outline.atEnd t).closing = [] := by
    rw [Outline.closing, hcomment, hdepth]
    rfl
  rw [render_parse_stretches, hclosing, Outline.flatMap_kept htight, Outline.flatMap_stretches, List.append_nil]

theorem render_parse_rule : (Sheet.parse "a\x7b b:c;\x7d").render = "a\x7b b:c;\x7d" :=
  (render_parse "a\x7b b:c;\x7d").2.2.2.2 (by decide) (by decide) (by decide)

/-- The blanks before a semicolon are not all loose where they hold a declaration: white space goes before it, and only
the other blanks are its text. -/
theorem render_parse_blank_declaration :
    let blanks : Text := [' ', '\u00A0']
    blanks.all isBlank = true ∧
      (Outline.stretches ("a\x7b" ++ blanks ++ ";\x7d")).map Stretch.text =
        ["a\x7b".toList, [' '], ['\u00A0'], [';'], ['\x7d'], []] ∧
      (Sheet.parse ("a\x7b" ++ blanks ++ ";\x7d")).render = "a\x7b ;\x7d" ∧
      (Sheet.parse ("a\x7b" ++ blanks ++ ";\x7d")).render ≠ "a\x7b;\x7d" := by
  decide

end VendorCss
