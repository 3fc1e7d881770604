import VendorCss.Proofs.Sheet.Numbering
import VendorCss.Proofs.Sheet.Printing
import VendorCss.Proofs.Token.LineEnds

/-!
# Where the nodes of a sheet start

A text is made of the nodes of its sheet, in document order: of the white space before each node, the node's own text,
and gaps that hold nothing but white space, semicolons and closing marks (`IsMadeOf`). A node knows the position where
its own text starts, and these positions go on strictly (`source_parse`).

The reader counts positions token by token; as no token cuts a line end, it counts the position after the text read so
far. This text is made of the nodes that the frames hold, of the white space that waits for the next node, and of the
statement begun (`SheetReader.Sourced`).
-/

namespace VendorCss

namespace Node

/-- The text of a node itself: up to the bracket of its block, without a semicolon that ends it or the mark that closes
it. -/
def own (n : Node) : Text :=
  match n.content with
  | .root => []
  | .declaration d => d.prop ++ n.raws.between ++ d.value ++ n.raws.important
  | .rule s => s ++ n.raws.between ++ ['\x7b']
  | .atRule r => '@' :: r.name ++ n.raws.afterName ++ r.params ++ n.raws.between ++ if r.hasBlock then ['\x7b'] else []
  | .comment t => "/*" ++ t

/-- The node without what is known only when its block has ended. -/
def unsealed (n : Node) : Node := { n with raws := { n.raws with after := [], semicolon := false } }

variable {n : Node} {t : Text}

theorem own_eq_opening (hn : n.isBlock = true) (hb : n.raws.before = []) : n.own = n.opening := by
  unfold isBlock at hn
  unfold own opening
  split at hn
  · simp [*]
  · simp_all
  · cases hn

end Node

namespace Statement

theorem own_blockNode (t : Text) : (blockNode t).own = t ++ ['\x7b'] :=
  (Node.own_eq_opening (isBlock_blockNode t) (before_blockNode t)).trans (opening_blockNode t)

/-- A statement prints its own text, and its semicolon. -/
theorem render_node (t : Text) (atEnd semicolon : Bool) :
    (node t atEnd).render [] semicolon = (node t atEnd).own ++ if semicolon then [';'] else [] := by
  unfold node
  split
  · cases atEnd <;> cases semicolon <;> simp [splitBlanks, atRule, Node.render, Node.own]
  · unfold declaration
    split
    · cases semicolon <;> simp [Node.render, Node.own]
    · rename_i head tail hsplit
      obtain ⟨value, important⟩ := splitImportant tail.trimStart
      cases important <;> cases semicolon <;> simp [Node.render, Node.own]

/-- The own text of a statement before its semicolon: at most blanks are left out. -/
theorem own_node_ended (t : Text) : ∃ blanks, (node t false).own ++ blanks = t ∧ ∀ c ∈ blanks, isBlank c = true := by
  have hrender := render_node_ended t
  rw [render_node, if_pos rfl] at hrender
  rw [List.append_cancel_right hrender]
  refine ⟨_, Outline.text_ended t, fun c hc => ?_⟩
  unfold Outline.ended at hc
  split at hc
  · cases hc
  · exact List.mem_takeWhile_imp (List.mem_reverse.1 hc)

theorem own_node_atEnd {t : Text} (h : t.trimEnd = t) : (node t true).own = t := by
  have hrender := render_node_atEnd h
  rwa [render_node, if_neg Bool.false_ne_true, List.append_nil] at hrender

end Statement

/-! ## Nodes in the order of the text -/

/-- What a text may have between nodes: white space, semicolons, and the marks that close blocks and comments. -/
def IsGap (t : Text) : Prop :=
  ∃ pieces : List Text, t = pieces.flatten ∧
    ∀ p ∈ pieces, p ∈ ([";", "\x7d", "*/"] : List Text) ∨ ∃ c, p = [c] ∧ isBlank c = true

theorem isGap_nil : IsGap [] := ⟨[], rfl, fun _ h => (List.not_mem_nil h).elim⟩

theorem isGap_mark {t : Text} (h : t ∈ ([";", "\x7d", "*/"] : List Text)) : IsGap t :=
  ⟨[t], by simp, fun p hp => .inl (by rwa [List.mem_singleton.1 hp])⟩

theorem isGap_blanks {t : Text} (h : ∀ c ∈ t, isBlank c = true) : IsGap t := by
  refine ⟨t.map fun c => [c], by simp [← List.flatMap_def], fun p hp => .inr ?_⟩
  obtain ⟨c, hc, rfl⟩ := List.mem_map.1 hp
  exact ⟨c, rfl, h c hc⟩

theorem IsGap.append {s t : Text} (hs : IsGap s) (ht : IsGap t) : IsGap (s ++ t) := by
  obtain ⟨ps, rfl, hps⟩ := hs
  obtain ⟨qs, rfl, hqs⟩ := ht
  exact ⟨ps ++ qs, by simp, fun p hp => (List.mem_append.1 hp).elim (hps p) (hqs p)⟩

/-- A text made of the nodes `ns`, one after the other. Each has its own text after the white space that it keeps before
it; there it starts, and it knows the position: the lines that have ended before it, and the UTF-16 units after them.
Between the nodes are gaps. -/
inductive IsMadeOf : (t : Text) → (ns : List Node) → Prop
  | gap {t : Text} (h : IsGap t) : IsMadeOf t []
  | node {t gap last : Text} {lines : List Text} {ns : List Node} {n : Node} (h : IsMadeOf t ns)
      (hlines : (t ++ n.raws.before).AreLines lines last)
      (hsource : n.source = some ⟨1 + lines.length, 1 + (last.map Position.units).sum⟩) (hgap : IsGap gap) :
      IsMadeOf (t ++ n.raws.before ++ n.own ++ gap) (ns ++ [n])

/-- Nodes that start one after the other, and all before the position `bound`. -/
def StartInOrder (bound : Position) (ns : List Node) : Prop :=
  ∃ ps : List Position, ns.map Node.source = ps.map some ∧ ps.Pairwise Position.Before ∧ ∀ p ∈ ps, p.Before bound

section

variable {t gap : Text} {bound later : Position} {ns : List Node} {n : Node}

theorem IsMadeOf.append (h : IsMadeOf t ns) (hgap : IsGap gap) : IsMadeOf (t ++ gap) ns := by
  cases h with
  | gap h => exact .gap (h.append hgap)
  | node h hlines hsource hgap' =>
    rw [List.append_assoc]
    exact .node h hlines hsource (hgap'.append hgap)

/-- One more node, which knows the position after the text and its white space. -/
theorem IsMadeOf.concat (h : IsMadeOf t ns) (hsource : n.source = some (t ++ n.raws.before).place) (hgap : IsGap gap) :
    IsMadeOf (t ++ n.raws.before ++ n.own ++ gap) (ns ++ [n]) := by
  obtain ⟨lines, last, hlines⟩ := (t ++ n.raws.before).exists_areLines
  rw [Position.place_eq hlines] at hsource
  exact .node h hlines hsource hgap

/-- What a node knows when its block has ended is nothing to where it stands. -/
theorem IsMadeOf.of_unsealed (h : IsMadeOf t (ns.map Node.unsealed)) : IsMadeOf t ns := by
  generalize hms : ns.map Node.unsealed = ms at h
  induction h generalizing ns with
  | gap h =>
    rw [List.map_eq_nil_iff.1 hms]
    exact .gap h
  | node h hlines hsource hgap ih =>
    obtain ⟨before, rest, rfl, hbefore, hrest⟩ := List.map_eq_append_iff.1 hms
    obtain ⟨n, rfl, rfl⟩ := List.map_eq_singleton_iff.1 hrest
    have hmade := ih hbefore
    exact .node hmade (show (_ ++ n.raws.before).AreLines _ _ from hlines) hsource hgap

theorem StartInOrder.mono (h : StartInOrder bound ns) (hlater : bound.Before later) : StartInOrder later ns := by
  obtain ⟨ps, hsources, hpairwise, hbound⟩ := h
  exact ⟨ps, hsources, hpairwise, fun p hp => (hbound p hp).trans hlater⟩

theorem StartInOrder.concat (h : StartInOrder bound ns) (hsource : n.source = some bound)
    (hlater : bound.Before later) : StartInOrder later (ns ++ [n]) := by
  obtain ⟨ps, hsources, hpairwise, hbound⟩ := h
  refine ⟨ps ++ [bound], by simp [hsources, hsource], ?_, fun p hp => ?_⟩
  · exact List.pairwise_append.2 ⟨hpairwise, List.pairwise_singleton _ _, fun p hp q hq => by
      rw [List.mem_singleton.1 hq]; exact hbound p hp⟩
  · rcases List.mem_append.1 hp with hp | hp
    · exact (hbound p hp).trans hlater
    · rwa [List.mem_singleton.1 hp]

end

namespace SheetReader

/-! ## Frames -/

/-- The nodes that frames hold, outermost first, without the root. -/
def nodesWithin (f : Frame) : (outer : List Frame) → List Node
  | [] => f.kids.nodes.map fun e => e.2.unsealed
  | g :: outer => nodesWithin g outer ++ f.node.unsealed :: f.kids.nodes.map fun e => e.2.unsealed

variable {read more gap : Text} {f f' g : Frame} {outer : List Frame} {n : Node} {id : Nat}

theorem nodesWithin_congr (hnode : f'.node.unsealed = f.node.unsealed) (hkids : f'.kids = f.kids)
    (outer : List Frame) : nodesWithin f' outer = nodesWithin f outer := by
  cases outer <;> simp [nodesWithin, hnode, hkids]

theorem nodesWithin_push (hnode : f'.node.unsealed = f.node.unsealed) (hkids : f'.kids = f.kids ++ .tree id n .nil)
    (outer : List Frame) : nodesWithin f' outer = nodesWithin f outer ++ [n.unsealed] := by
  cases outer <;> simp [nodesWithin, hnode, hkids, Forest.tree, Forest.nodes]

theorem nodesWithin_into (f g : Frame) (outer : List Frame) :
    nodesWithin (f.into g) outer = nodesWithin f (g :: outer) := by
  cases outer <;> simp [nodesWithin, Frame.into, Forest.tree, Forest.nodes]

/-- The position at which a new node of the frame starts: that of the statement begun, or that after the text read. -/
def nodeStart (read : Text) (f : Frame) : Position := (f.statement.map Prod.snd).getD read.place

/-- The text read is made of the nodes that the frames hold, of what waits, and of the statement begun. -/
structure Sourced (read : Text) (f : Frame) (outer : List Frame) : Prop where
  text : ∃ made, IsMadeOf made (nodesWithin f outer) ∧ read = made ++ f.pending ++ f.begun ∧
    nodeStart read f = (made ++ f.pending).place
  pending : IsGap f.pending
  statement : f.statement.isSome = true → (nodeStart read f).Before read.place
  waiting : ∀ g ∈ outer, g.IsWaiting
  order : StartInOrder (nodeStart read f) (nodesWithin f outer)

theorem nodeStart_of_none (h : f.statement = none) (read : Text) : nodeStart read f = read.place := by
  rw [nodeStart, h]
  rfl

theorem begun_of_none (h : f.statement = none) : f.begun = [] := by
  rw [Frame.begun, h]
  rfl

namespace Sourced

/-- A new node starts no later than the text read ends, and before any text that is read more. -/
theorem nodeStart_before (h : Sourced read f outer) (hmore : read.place.Before (read ++ more).place) :
    (nodeStart read f).Before (read ++ more).place := by
  cases hst : f.statement with
  | none => rwa [nodeStart_of_none hst]
  | some st => exact (h.statement (by rw [hst]; rfl)).trans hmore

/-- A frame between statements: all that is read is made of nodes, with white space that waits. -/
theorem between {made : Text} (hst : f.statement = none) (hpending : IsGap f.pending)
    (hmade : IsMadeOf made (nodesWithin f outer)) (hread : read = made ++ f.pending)
    (hwaiting : ∀ g ∈ outer, g.IsWaiting) (horder : StartInOrder read.place (nodesWithin f outer)) : Sourced read f outer where
  text := ⟨made, hmade, by rw [begun_of_none hst, List.append_nil, hread], by rw [nodeStart_of_none hst, hread]⟩
  pending := hpending
  statement := fun hsome => absurd hsome (by simp [hst])
  waiting := hwaiting
  order := by rwa [nodeStart_of_none hst]

/-- White space and semicolons between statements. -/
theorem wait (h : Sourced read f outer) (hst : f.statement = none) (hmore : read.place.Before (read ++ more).place)
    (hgap : IsGap more) (hnode : f'.node = f.node) (hkids : f'.kids = f.kids) (hst' : f'.statement = none)
    (hpending : f'.pending = f.pending ++ more) : Sourced (read ++ more) f' outer := by
  obtain ⟨made, hmade, hread, -⟩ := h.text
  rw [begun_of_none hst, List.append_nil] at hread
  have hnodes : nodesWithin f' outer = nodesWithin f outer := nodesWithin_congr (by rw [hnode]) hkids outer
  refine between hst' (by rw [hpending]; exact h.pending.append hgap) (by rwa [hnodes]) ?_ h.waiting ?_
  · rw [hpending, ← List.append_assoc, ← hread]
  · rw [hnodes]
    exact h.order.mono (h.nodeStart_before hmore)

/-- More text of a statement, or the first. -/
theorem extend (h : Sourced read f outer) (hmore : read.place.Before (read ++ more).place) (hnode : f'.node = f.node)
    (hkids : f'.kids = f.kids) (hpending : f'.pending = f.pending)
    (hst : f'.statement = some (f.begun ++ more, nodeStart read f)) : Sourced (read ++ more) f' outer := by
  obtain ⟨made, hmade, hread, hplace⟩ := h.text
  have hstart : nodeStart (read ++ more) f' = nodeStart read f := by rw [nodeStart, hst]; rfl
  have hbegun : f'.begun = f.begun ++ more := by rw [Frame.begun, hst]; rfl
  have hnodes : nodesWithin f' outer = nodesWithin f outer := nodesWithin_congr (by rw [hnode]) hkids outer
  refine ⟨⟨made, by rwa [hnodes], ?_, by rw [hstart, hplace, hpending]⟩, by rw [hpending]; exact h.pending,
    fun _ => by rw [hstart]; exact h.nodeStart_before hmore, h.waiting, by rw [hstart, hnodes]; exact h.order⟩
  rw [hpending, hbegun, ← List.append_assoc, ← hread]

/-- A new node whose text is the statement begun and what is read after it, less a gap and what waits. -/
theorem node (h : Sourced read f outer) (hbefore : n.raws.before = f.pending) {waits : Text}
    (hown : f.begun ++ more = n.own ++ gap ++ waits) (hgap : IsGap gap) (hsource : n.source = some (nodeStart read f))
    (hmore : (nodeStart read f).Before (read ++ more).place) :
    (∃ made, IsMadeOf made (nodesWithin f outer ++ [n.unsealed]) ∧ read ++ more = made ++ waits) ∧
      StartInOrder (read ++ more).place (nodesWithin f outer ++ [n.unsealed]) := by
  obtain ⟨made, hmade, hread, hplace⟩ := h.text
  have hsource' : n.unsealed.source = some (made ++ n.unsealed.raws.before).place := by
    show n.source = some (made ++ n.raws.before).place
    rw [hsource, hplace, hbefore]
  refine ⟨⟨made ++ n.raws.before ++ n.own ++ gap, hmade.concat hsource' hgap, ?_⟩, h.order.concat hsource hmore⟩
  · rw [hread, hbefore, List.append_assoc _ f.begun, hown]
    simp only [List.append_assoc]

/-- A new node of the frame, after which nothing is begun. -/
theorem push (h : Sourced read f outer) (id : Nat) (n : Node) (hown : f.begun ++ more = n.own ++ gap ++ f'.pending)
    (hgap : IsGap gap) (hpending : IsGap f'.pending) (hmore : (nodeStart read f).Before (read ++ more).place)
    (hnode : f'.node.unsealed = f.node.unsealed) (hkids : f'.kids = (f.push id n (nodeStart read f) .nil).kids)
    (hst : f'.statement = none) : Sourced (read ++ more) f' outer := by
  let new : Node := { n.withBefore f.pending with source := some (nodeStart read f) }
  have hown' : f.begun ++ more = new.own ++ gap ++ f'.pending := hown
  obtain ⟨⟨made, hmade, hread⟩, horder⟩ := h.node rfl hown' hgap rfl hmore
  have hnodes : nodesWithin f' outer = nodesWithin f outer ++ [new.unsealed] := nodesWithin_push hnode hkids outer
  exact between hst hpending (by rwa [hnodes]) hread h.waiting (by rwa [hnodes])

/-- The end of a block: what is begun becomes a node, without more text. -/
theorem close (h : Sourced read f outer) (next : Nat) :
    Sourced read (f.close next).1 outer ∧ (f.close next).1.statement = none := by
  cases hst : f.statement with
  | none =>
    rw [Frame.close_of_none hst]
    have hnodes : nodesWithin f.sealed outer = nodesWithin f outer := nodesWithin_congr (by rfl) (by rfl) outer
    obtain ⟨made, hmade, hread, hplace⟩ := h.text
    have horder : StartInOrder (nodeStart read f) (nodesWithin f.sealed outer) := by rw [hnodes]; exact h.order
    exact ⟨⟨⟨made, by rwa [hnodes], hread, hplace⟩, h.pending, h.statement, h.waiting, horder⟩, hst⟩
  | some st =>
    obtain ⟨text, source⟩ := st
    have hbegun : f.begun = text := by rw [Frame.begun, hst]; rfl
    have hstart : nodeStart read f = source := by rw [nodeStart, hst]; rfl
    rw [Frame.close_of_some hst]
    refine ⟨?_, rfl⟩
    have hown : f.begun ++ [] = (Statement.node text.trimEnd true).own ++ [] ++ text.trailingBlanks := by
      rw [Statement.own_node_atEnd (Text.trimEnd_trimEnd text), hbegun, List.append_nil, List.append_nil,
        Text.trimEnd_append_trailingBlanks]
    have hblanks : IsGap text.trailingBlanks := isGap_blanks fun c hc =>
      List.mem_takeWhile_imp (List.mem_reverse.1 hc)
    have hbefore : (nodeStart read f).Before (read ++ []).place := by
      rw [List.append_nil]
      exact h.statement (by rw [hst]; rfl)
    have hclosed : Sourced (read ++ []) (f.endLast next text source).sealed outer :=
      h.push next _ hown isGap_nil hblanks hbefore rfl (by rw [hstart]; rfl) rfl
    rwa [List.append_nil] at hclosed

/-- A closed frame is a node of the frame around it. -/
theorem into (h : Sourced read f (g :: outer)) (hst : f.statement = none) (hgap : IsGap more)
    (hmore : read.place = (read ++ more).place ∨ read.place.Before (read ++ more).place) :
    Sourced (read ++ more) (f.into g) outer := by
  obtain ⟨hwaiting, houter⟩ := List.forall_mem_cons.1 h.waiting
  obtain ⟨made, hmade, hread, -⟩ := h.text
  rw [begun_of_none hst, List.append_nil] at hread
  have hpending : (f.into g).pending = [] := hwaiting.2
  have hnodes := nodesWithin_into f g outer
  have hmade' : IsMadeOf (read ++ more) (nodesWithin (f.into g) outer) := by
    rw [hnodes, hread]
    exact (hmade.append h.pending).append hgap
  refine between hwaiting.1 (by rw [hpending]; exact isGap_nil) hmade' (by rw [hpending, List.append_nil]) houter ?_
  have horder := h.order
  rw [nodeStart_of_none hst] at horder
  rw [hnodes]
  rcases hmore with hmore | hmore
  · rwa [← hmore]
  · exact horder.mono hmore

/-- The block of a new node. -/
theorem openBlock (h : Sourced read f outer) (hmore : read.place.Before (read ++ ['\x7b']).place) (id : Nat) :
    let node := { (Statement.blockNode f.begun).withBefore f.pending with source := some (nodeStart read f) }
    Sourced (read ++ ['\x7b']) { id, node }
      ({ f with statement := none, pending := [], semicolon := false } :: outer) := by
  intro node
  have hown : f.begun ++ ['\x7b'] = node.own ++ [] ++ [] := by
    have hown : node.own = (Statement.blockNode f.begun).own := rfl
    rw [hown, Statement.own_blockNode, List.append_nil, List.append_nil]
  obtain ⟨⟨made, hmade, hread⟩, horder⟩ := h.node rfl hown isGap_nil rfl (h.nodeStart_before hmore)
  have hwithin : nodesWithin { f with statement := none, pending := [], semicolon := false } outer =
      nodesWithin f outer := nodesWithin_congr (by rfl) (by rfl) outer
  rw [← hwithin] at hmade horder
  exact between rfl isGap_nil hmade hread (List.forall_mem_cons.2 ⟨⟨rfl, rfl⟩, h.waiting⟩) horder

end Sourced

/-! ## Tokens -/

/-- A reader that has read a text. -/
structure Reads (read : Text) (r : SheetReader) : Prop where
  position : r.position = read.place
  skipping : r.skipping ≠ [] → r.frame.statement.isSome = true
  sourced : Sourced read r.frame r.outer

variable {r : SheetReader} {t : Token}

theorem extend_frame (h : Reads read r) (hmore : read.place.Before (read ++ t.text).place) :
    Sourced (read ++ t.text) (r.extend t).frame (r.extend t).outer ∧ (r.extend t).frame.statement.isSome = true := by
  have hposition := h.position
  unfold extend
  cases hst : r.frame.statement with
  | none =>
    refine ⟨h.sourced.extend hmore rfl rfl rfl ?_, rfl⟩
    rw [nodeStart_of_none hst, begun_of_none hst, ← hposition]
    rfl
  | some st =>
    refine ⟨h.sourced.extend hmore rfl rfl rfl ?_, rfl⟩
    rw [nodeStart, Frame.begun, hst]
    rfl

theorem skip_frame (h : Reads read r) (hk : r.skipping ≠ []) (hmore : read.place.Before (read ++ t.text).place) :
    Sourced (read ++ t.text) (r.skip t).frame (r.skip t).outer ∧ (r.skip t).frame.statement.isSome = true := by
  obtain ⟨st, hst⟩ := Option.isSome_iff_exists.1 (h.skipping hk)
  refine ⟨h.sourced.extend hmore rfl rfl rfl ?_, ?_⟩
  · rw [nodeStart, Frame.begun]
    simp [skip, hst]
  · simp [skip, hst]

theorem openBlock_frame (h : Reads read r) (hk : r.skipping = []) (ht : t.text = ['\x7b'])
    (hmore : read.place.Before (read ++ t.text).place) :
    Sourced (read ++ t.text) (r.openBlock t).frame (r.openBlock t).outer ∧
      ((r.openBlock t).skipping ≠ [] → (r.openBlock t).frame.statement.isSome = true) := by
  have hbegun : (r.frame.statement.getD ([], r.position)).1 = r.frame.begun := by
    rw [Frame.begun]
    cases r.frame.statement <;> rfl
  have hstart : (r.frame.statement.getD ([], r.position)).2 = nodeStart read r.frame := by
    rw [nodeStart, ← h.position]
    cases r.frame.statement <;> rfl
  obtain ⟨hextend, hsome⟩ := extend_frame (t := t) h hmore
  unfold openBlock
  dsimp only
  rw [hbegun, hstart]
  split
  · exact ⟨hextend, fun _ => hsome⟩
  · rw [ht] at hmore ⊢
    exact ⟨h.sourced.openBlock hmore r.next, fun hne => absurd hk hne⟩

/-- The statement begun before its semicolon: at most blanks are left out of the node. -/
theorem exists_gap_ended (text : Text) : ∃ gap, text ++ [';'] = (Statement.node text false).own ++ gap ∧ IsGap gap := by
  obtain ⟨blanks, hblanks, hall⟩ := Statement.own_node_ended text
  refine ⟨blanks ++ [';'], by rw [← List.append_assoc, hblanks], (isGap_blanks hall).append (isGap_mark (by decide))⟩

/-- One token: the frames hold the nodes of the longer text. -/
theorem step_frame (h : Reads read r) (ht : t.IsSpelled) (hread : t.IsRead)
    (hmore : read.place.Before (read ++ t.text).place) :
    Sourced (read ++ t.text) (r.step t).frame (r.step t).outer ∧
      ((r.step t).skipping ≠ [] → (r.step t).frame.statement.isSome = true) := by
  have hsourced := h.sourced
  obtain ⟨hextend, hsome⟩ := extend_frame (t := t) h hmore
  unfold step
  by_cases hk : r.skipping = []
  · have hempty : (!r.skipping.isEmpty) = false := by rw [hk]; rfl
    have hnone (f : Frame) : r.skipping ≠ [] → f.statement.isSome = true := fun hne => absurd hk hne
    rw [hempty, if_neg Bool.false_ne_true]
    unfold Token.IsSpelled at ht
    cases hkind : t.kind with
    | openBracket b =>
      rw [hkind] at ht
      cases b with
      | curly => simpa using openBlock_frame h hk ht hmore
      | paren | square => exact ⟨hextend, fun _ => hsome⟩
    | closeBracket b =>
      rw [hkind] at ht
      cases b with
      | curly =>
        cases ho : r.outer with
        | nil => exact ⟨hextend, fun _ => hsome⟩
        | cons outer rest =>
          rw [ho] at hsourced
          obtain ⟨hclose, hst⟩ := hsourced.close r.next
          have hgap : IsGap t.text := by rw [ht]; exact isGap_mark (by decide)
          exact ⟨hclose.into hst hgap (.inr hmore), hnone _⟩
      | paren | square => exact ⟨hextend, fun _ => hsome⟩
    | semicolon =>
      rw [hkind] at ht
      cases hs : r.frame.statement with
      | none =>
        have hgap : IsGap t.text := by rw [ht]; exact isGap_mark (by decide)
        exact ⟨hsourced.wait hs hmore hgap rfl rfl hs rfl, hnone _⟩
      | some st =>
        obtain ⟨text, source⟩ := st
        have hbegun : r.frame.begun = text := by rw [Frame.begun, hs]; rfl
        have hstart : nodeStart read r.frame = source := by rw [nodeStart, hs]; rfl
        obtain ⟨gap, hown, hgap⟩ := exists_gap_ended text
        have hown' : r.frame.begun ++ t.text = (Statement.node text false).own ++ gap ++ [] := by
          rw [hbegun, ht, hown, List.append_nil]
        exact ⟨hsourced.push r.next _ hown' hgap isGap_nil (hsourced.nodeStart_before hmore) rfl (by rw [hstart]) rfl,
          hnone _⟩
    | blank =>
      rw [Token.IsRead, hkind] at hread
      cases hs : r.frame.statement with
      | none =>
        have hgap : IsGap t.text := isGap_blanks fun c hc => Token.isBlank_of_isSpace (hread c hc)
        exact ⟨hsourced.wait hs hmore hgap rfl rfl hs rfl, hnone _⟩
      | some st => exact ⟨hextend, fun _ => hsome⟩
    | comment inside =>
      rw [hkind] at ht
      cases hs : r.frame.statement with
      | none =>
        obtain ⟨mark, hmark, hgap⟩ : ∃ mark, t.text = (Node.comment inside).own ++ mark ∧ IsGap mark := by
          rcases ht with ht | ht
          · exact ⟨[], by rw [ht, List.append_nil]; rfl, isGap_nil⟩
          · exact ⟨"*/", ht, isGap_mark (by decide)⟩
        have hown : r.frame.begun ++ t.text = (Node.comment inside).own ++ mark ++ [] := by
          rw [begun_of_none hs, List.nil_append, hmark, List.append_nil]
        have hstart : nodeStart read r.frame = r.position := by rw [nodeStart_of_none hs, h.position]
        exact ⟨hsourced.push r.next _ hown hgap isGap_nil (hsourced.nodeStart_before hmore) rfl (by rw [hstart]) hs,
          hnone _⟩
      | some st => exact ⟨hextend, fun _ => hsome⟩
    | colon | comma | slash | string | function _ | word => exact ⟨hextend, fun _ => hsome⟩
  · have hne : (!r.skipping.isEmpty) = true := by simpa using hk
    rw [if_pos hne]
    obtain ⟨hskip, hsome⟩ := skip_frame h hk hmore
    exact ⟨hskip, fun _ => hsome⟩

theorem Reads.step (h : Reads read r) (ht : t.IsSpelled) (hread : t.IsRead) (htext : t.text ≠ [])
    (hcut : ¬CutsNewline read t.text) : Reads (read ++ t.text) (r.step t) := by
  have hplace : (read ++ t.text).place = read.place.advance t.text := Position.advance_append hcut _
  have hmore : read.place.Before (read ++ t.text).place := by
    rw [hplace]
    exact Position.before_advance htext _
  obtain ⟨hsourced, hskipping⟩ := step_frame h ht hread hmore
  refine ⟨?_, hskipping, hsourced⟩
  rw [hplace, ← h.position]
  rfl

/-- The tokens of a text, no two of which cut a line end. -/
theorem Reads.foldl {ts : List Token} (h : Reads read r) (hts : ∀ t ∈ ts, t.IsSpelled ∧ t.IsRead ∧ t.text ≠ [])
    (hcuts : ∀ xs ys, ts = xs ++ ys → ¬CutsNewline (read ++ xs.flatMap Token.text) (ys.flatMap Token.text)) :
    Reads (read ++ ts.flatMap Token.text) (ts.foldl SheetReader.step r) := by
  induction ts generalizing read r with
  | nil => simpa using h
  | cons t ts ih =>
    obtain ⟨⟨hspelled, hread, htext⟩, hts⟩ := List.forall_mem_cons.1 hts
    have hcut : ¬CutsNewline read t.text := fun ⟨hlast, hhead⟩ => by
      refine hcuts [] (t :: ts) rfl ⟨by simpa using hlast, ?_⟩
      rw [List.flatMap_cons, List.head?_append, hhead]
      rfl
    have hrest := ih (h.step hspelled hread htext hcut) hts fun xs ys heq => by
      have hcuts' := hcuts (t :: xs) ys (by rw [heq]; rfl)
      rwa [List.flatMap_cons, ← List.append_assoc] at hcuts'
    rwa [List.append_assoc] at hrest

theorem reads_start : Reads [] start where
  position := rfl
  skipping := fun hne => absurd rfl hne
  sourced := .between rfl isGap_nil (.gap isGap_nil) rfl (fun _ h => (List.not_mem_nil h).elim)
    ⟨[], rfl, .nil, fun _ h => (List.not_mem_nil h).elim⟩

theorem reads_tokens (t : Text) : Reads t ((tokens t).foldl step start) := by
  have h := reads_start.foldl (fun x hx => ⟨tokens_isSpelled t x hx, tokens_isRead t x hx, text_ne_nil hx⟩)
    fun xs ys => tokens_newlines
  rwa [List.nil_append, tokens_text] at h

/-- Closing all frames adds no text. -/
theorem Sourced.closeAll (h : Sourced read f outer) (next : Nat) :
    ∃ last, last = (closeAll next f outer).1 ∧ IsMadeOf read (nodesWithin last []) ∧
      StartInOrder read.place (nodesWithin last []) := by
  induction outer generalizing f next with
  | nil =>
    obtain ⟨hclose, hst⟩ := h.close next
    obtain ⟨made, hmade, hread, -⟩ := hclose.text
    have horder := hclose.order
    rw [nodeStart_of_none hst] at horder
    rw [begun_of_none hst, List.append_nil] at hread
    exact ⟨_, rfl, hread ▸ hmade.append hclose.pending, horder⟩
  | cons g outer ih =>
    obtain ⟨hclose, hst⟩ := h.close next
    have hinto := hclose.into hst isGap_nil (.inl (by rw [List.append_nil]))
    rw [List.append_nil] at hinto
    exact ih hinto _

end SheetReader

theorem Sheet.nodes_ofRoot (root : Node) (kids : Forest) (next : Nat) :
    (ofRoot root kids next).nodes = (rootId, root) :: kids.nodes := by
  simp [nodes, whole, ofRoot, joinRuns, Forest.tree, Forest.nodes]

/-- **Where nodes start.** The nodes of a parsed sheet are the root, and in document order those that the text is made
of: each starts where the text has its own, directly after the white space that it keeps before it, at the position that
it knows. These positions go on strictly. -/
theorem Sheet.source_parse (t : Text) :
    ∃ root nodes, (parse t).nodes = (rootId, root) :: nodes ∧ IsMadeOf t (nodes.map Prod.snd) ∧
      ∃ ps : List Position, nodes.map (fun e => e.2.source) = ps.map some ∧ ps.Pairwise Position.Before := by
  let r := (tokens t).foldl SheetReader.step .start
  obtain ⟨last, hlast, hmade, ps, hsources, hpairwise, -⟩ :=
    (SheetReader.reads_tokens t).sourced.closeAll r.next
  have hnodes : (parse t).nodes = (rootId, last.node) :: last.kids.nodes := by
    rw [hlast]
    exact nodes_ofRoot _ _ _
  refine ⟨last.node, last.kids.nodes, hnodes, IsMadeOf.of_unsealed ?_, ps, ?_, hpairwise⟩
  · rwa [List.map_map]
  · rw [← hsources, SheetReader.nodesWithin, List.map_map]
    rfl

end VendorCss
