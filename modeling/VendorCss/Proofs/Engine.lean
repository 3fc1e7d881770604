import Mathlib.Data.List.Nodup
import VendorCss.Engine
import VendorCss.Proofs.Browser.Selection
import VendorCss.Proofs.Json
import VendorCss.Proofs.Pass.Queries

/-!
# Engines answer as if they kept nothing

Keeping plans is not to be noticed: whatever calls came before, a call is answered as by a new engine over the same data
(`Engine.callAll_eq_fresh`). The key of a plan decides which one is used again, so it has to tell apart all options that
are compiled to different plans; it does, because JSON is read back as what was printed (`Json.compact_injective`) and
the texts of targets tell the targets (`Selection.eq_of_names`). Options with one key may still differ in their queries,
which have no effect (`Prefixer.processText_asking`).

`IsSound` is what calls preserve: the plans kept are at most as many as the capacity, have different keys, and each is
what is compiled for some options with its key.
-/

namespace VendorCss

namespace Engine

variable {e : Engine} {s s' : Selection} {o o' : Options}

/-! ## Keys -/

theorem isPlain_shape (o : Options) : (shape o).IsPlain := by
  refine .object fun m hm => ?_
  simp only [List.mem_cons, List.not_mem_nil, or_false] at hm
  rcases hm with rfl | rfl | rfl | rfl | rfl | rfl | rfl
  · exact .array (by simp)
  · cases o.flexbox <;> constructor
  · cases o.grid <;> constructor
  all_goals exact .bool _

theorem isPlain_ofTexts (ts : List Text) : (Json.ofTexts ts).IsPlain := by
  refine .array fun j hj => ?_
  obtain ⟨t, -, rfl⟩ := List.mem_map.1 hj
  exact .string t

/-- The shape of options says everything but their queries. -/
theorem eq_of_shape (h : shape o = shape o') : { o with browsers := [] } = { o' with browsers := [] } := by
  cases o with | mk browsers flexbox grid supports cascade add remove
  cases o' with | mk browsers' flexbox' grid' supports' cascade' add' remove'
  simp only [shape, Json.object.injEq, List.cons.injEq, Prod.mk.injEq, true_and, and_true, Json.bool.injEq] at h
  obtain ⟨hflexbox, hgrid, rfl, rfl, rfl, rfl⟩ := h
  have hflexbox : flexbox = flexbox' := by
    cases flexbox <;> cases flexbox' <;> simp_all [FlexboxMode.toJson]
  have hgrid : grid = grid' := by
    cases grid <;> cases grid' <;> simp_all [GridMode.toJson]
  rw [hflexbox, hgrid]

/-- The key says which targets are selected, and everything of the options but the queries. -/
theorem eq_of_keyOf (h : keyOf s o = keyOf s' o') :
    s.names = s'.names ∧ { o with browsers := [] } = { o' with browsers := [] } := by
  have hplain : ∀ (s : Selection) (o : Options), (Json.array [.ofTexts s.names, shape o]).IsPlain := by
    intro s o
    refine .array fun j hj => ?_
    simp only [List.mem_cons, List.not_mem_nil, or_false] at hj
    rcases hj with rfl | rfl
    · exact isPlain_ofTexts _
    · exact isPlain_shape o
  have hjson := Json.compact_injective (hplain s o) (hplain s' o') h
  simp only [Json.ofTexts, Json.array.injEq, List.cons.injEq, and_true] at hjson
  refine ⟨?_, eq_of_shape hjson.2⟩
  exact (List.map_injective_iff.2 fun _ _ => Json.string.inj) hjson.1

theorem ofQueries_of_selection (h : e.selection o = .ok s) : Selection.ofQueries e.agents o.browsers = .ok s := by
  unfold selection at h
  cases hvalid : o.validate with
  | error err => simp [hvalid, Except.mapError, bind, Except.bind] at h
  | ok u =>
    cases hqueries : Selection.ofQueries e.agents o.browsers with
    | error err => simp [hvalid, hqueries, Except.mapError, bind, Except.bind] at h
    | ok found => simpa [hvalid, hqueries, Except.mapError, bind, Except.bind] using h

/-- Selections of one engine whose targets are written alike are one. -/
theorem selection_eq_of_names (hagents : ∀ a ∈ e.agents, ' ' ∉ a.name) (h : e.selection o = .ok s)
    (h' : e.selection o' = .ok s') (hnames : s.names = s'.names) : s = s' := by
  exact Selection.eq_of_names hagents (ofQueries_of_selection h) (ofQueries_of_selection h') hnames

/-! ## Plans that are kept -/

/-- The plans kept are at most as many as the capacity, have different keys, and each is what is compiled for some
options with its key. -/
structure IsSound (e : Engine) : Prop where
  bounded : e.plans.length ≤ e.capacity
  nodup : (e.plans.map CachedPlan.key).Nodup
  compiled : ∀ p ∈ e.plans, ∃ s o, e.selection o = .ok s ∧ p.key = keyOf s o ∧
    p.prefixer = Prefixer.compile e.table s o

theorem isSound_make (agents : AgentTable) (table : CapabilityTable) (capacity : Nat) :
    (make agents table capacity).IsSound where
  bounded := Nat.zero_le _
  nodup := List.nodup_nil
  compiled := by simp [make]

/-- The engine answers from the same data, with the same room. -/
structure SameData (e e' : Engine) : Prop where
  agents : e'.agents = e.agents
  table : e'.table = e.table
  capacity : e'.capacity = e.capacity

theorem SameData.trans {e₁ e₂ e₃ : Engine} (h : SameData e₁ e₂) (h' : SameData e₂ e₃) : SameData e₁ e₃ :=
  ⟨h'.agents.trans h.agents, h'.table.trans h.table, h'.capacity.trans h.capacity⟩

theorem SameData.selection {e e' : Engine} (h : SameData e e') (o : Options) : e'.selection o = e.selection o := by
  simp only [Engine.selection, h.agents]

theorem sameData_keep (e : Engine) (p : CachedPlan) : SameData e (e.keep p) := ⟨rfl, rfl, rfl⟩

/-- A plan that is used last stays or comes in, and the engine is sound as before. -/
theorem IsSound.keep (h : e.IsSound) {p : CachedPlan} {s : Selection} {o : Options} (hs : e.selection o = .ok s)
    (hkey : p.key = keyOf s o) (hp : p.prefixer = Prefixer.compile e.table s o) : (e.keep p).IsSound where
  bounded := List.length_take_le ..
  nodup := by
    have hothers : (p :: e.plans.filter fun q => q.key != p.key).map CachedPlan.key |>.Nodup := by
      rw [List.map_cons, List.nodup_cons]
      refine ⟨?_, h.nodup.sublist (List.filter_sublist.map _)⟩
      simp
    exact hothers.sublist ((List.take_sublist ..).map _)
  compiled := by
    intro q hq
    rcases List.mem_cons.1 (List.mem_of_mem_take hq) with rfl | hold
    · exact ⟨s, o, hs, hkey, hp⟩
    · exact h.compiled q (List.mem_filter.1 hold).1

/-- A plan that is there moves to the front, and the others stay behind it. -/
theorem perm_cons_filter {plans : List CachedPlan} (hnodup : (plans.map CachedPlan.key).Nodup) {p : CachedPlan}
    (hp : p ∈ plans) : (p :: plans.filter fun q => q.key != p.key).Perm plans := by
  induction plans with
  | nil => cases hp
  | cons q plans ih =>
    rw [List.map_cons, List.nodup_cons] at hnodup
    rcases List.mem_cons.1 hp with rfl | hlater
    · have hothers : plans.filter (fun r => r.key != p.key) = plans := by
        refine List.filter_eq_self.2 fun r hr => ?_
        rw [bne_iff_ne]
        intro heq
        exact hnodup.1 (heq ▸ List.mem_map_of_mem hr)
      simp [hothers]
    · have hne : q.key ≠ p.key := fun heq => hnodup.1 (heq ▸ List.mem_map_of_mem hlater)
      rw [List.filter_cons_of_pos (by simpa using hne)]
      exact (List.Perm.swap q p _).trans ((ih hnodup.2 hlater).cons q)

theorem IsSound.keep_perm (h : e.IsSound) {p : CachedPlan} (hp : p ∈ e.plans) : (e.keep p).plans.Perm e.plans := by
  have hperm := perm_cons_filter h.nodup hp
  have hroom : (p :: e.plans.filter fun q => q.key != p.key).length ≤ e.capacity := by
    rw [hperm.length_eq]
    exact h.bounded
  simpa only [Engine.keep, List.take_of_length_le hroom] using hperm

/-! ## The plan for a selection -/

/-- The plan for options is the one compiled for them but for the queries, and the engine is sound afterwards. -/
theorem IsSound.planFor (h : e.IsSound) (hagents : ∀ a ∈ e.agents, ' ' ∉ a.name) (hs : e.selection o = .ok s) :
    (e.planFor s o).1.prefixer.asking [] = (Prefixer.compile e.table s o).asking [] ∧ (e.planFor s o).2.IsSound ∧
      SameData e (e.planFor s o).2 := by
  unfold Engine.planFor
  dsimp only
  split
  · rename_i p hfind
    have hmem := List.mem_of_find?_eq_some hfind
    have hkey : p.key = keyOf s o := by simpa using List.find?_some hfind
    obtain ⟨s', o', hs', hkey', hp⟩ := h.compiled p hmem
    obtain ⟨hnames, hshape⟩ := eq_of_keyOf (hkey'.symm.trans hkey)
    have hselection : s' = s := selection_eq_of_names hagents hs' hs hnames
    refine ⟨?_, h.keep hs' hkey' hp, sameData_keep e p⟩
    rw [hp, hselection, Prefixer.compile_asking, Prefixer.compile_asking, hshape]
  · refine ⟨rfl, ?_, ⟨rfl, rfl, rfl⟩⟩
    have hkeep := h.keep (p := ⟨keyOf s o, e.compiled, Prefixer.compile e.table s o⟩) hs rfl rfl
    exact ⟨hkeep.bounded, hkeep.nodup, hkeep.compiled⟩

/-- A plan whose key is there takes no other place: the plans kept are the same, in another order. -/
theorem IsSound.planFor_perm (h : e.IsSound) (hkey : keyOf s o ∈ e.plans.map CachedPlan.key) :
    (e.planFor s o).2.plans.Perm e.plans := by
  unfold Engine.planFor
  dsimp only
  split
  · rename_i p hfind
    exact h.keep_perm (List.mem_of_find?_eq_some hfind)
  · rename_i hnone
    obtain ⟨p, hp, hpkey⟩ := List.mem_map.1 hkey
    exact absurd (List.find?_eq_none.1 hnone p hp) (by simp [hpkey])

end Engine

/-! ## Calls -/

/-- A call to an engine. -/
inductive Call
  | plan (options : Options)
  | process (css : Text) (options : Options)
  | info (options : Options)
  | report (options : Options)

/-- What a call gives. A plan counts without the queries that it was compiled for, which nothing reads. -/
inductive Answer
  | plan (content : Prefixer)
  | processed (css : Text) (diagnostics : List Diagnostic)
  | info (text : Text)
  | report (report : Report)

namespace Call

/-- The options of a call. -/
def options : Call → Options
  | plan o | process _ o | info o | report o => o

/-- The call made: its answer and the engine afterwards. -/
def run (e : Engine) : Call → Except PrefixerError (Answer × Engine)
  | plan o => (e.plan o).map fun (p, e) => (.plan (p.prefixer.asking []), e)
  | process css o => (e.process css o).map fun (r, e) => (.processed r.css r.diagnostics, e)
  | info o => (e.info o).map fun (text, e) => (.info text, e)
  | report o => (e.report o).map fun (r, e) => (.report r, e)

/-- What a call gives with the prefixer of its plan. -/
def answerOf (x : Prefixer) : Call → Answer
  | plan _ => .plan (x.asking [])
  | process css _ => .processed (x.processText css).css (x.processText css).diagnostics
  | info _ => .info (Report.ofRules x.rules).render
  | report _ => .report (Report.ofRules x.rules)

/-- Every call asks for a plan and answers with it. -/
theorem run_eq (e : Engine) (c : Call) :
    c.run e = (e.selection c.options).map fun s =>
      (c.answerOf (e.planFor s c.options).1.prefixer, (e.planFor s c.options).2) := by
  cases c with
  | plan o => simp only [run, Engine.plan, options]; cases e.selection o <;> rfl
  | process css o => simp only [run, Engine.process, Engine.plan, options]; cases e.selection o <;> rfl
  | info o => simp only [run, Engine.info, Engine.report, Engine.plan, options]; cases e.selection o <;> rfl
  | report o => simp only [run, Engine.report, Engine.plan, options]; cases e.selection o <;> rfl

/-- The queries of a plan have no effect on an answer. -/
theorem answerOf_asking (x : Prefixer) (c : Call) : c.answerOf (x.asking []) = c.answerOf x := by
  cases c with
  | plan o => rfl
  | process css o => simp only [answerOf, Prefixer.processText_asking]
  | info o => rfl
  | report o => rfl

end Call

namespace Engine

/-- The answer to a call, or why there is none, and the engine afterwards. -/
def call (e : Engine) (c : Call) : Except PrefixerError Answer × Engine :=
  match c.run e with
  | .ok (a, e') => (.ok a, e')
  | .error err => (.error err, e)

/-- The answers to calls made one after the other, and the engine afterwards. -/
def callAll : List Call → Engine → List (Except PrefixerError Answer) × Engine
  | [], e => ([], e)
  | c :: cs, e => ((e.call c).1 :: (callAll cs (e.call c).2).1, (callAll cs (e.call c).2).2)

variable {e : Engine}

theorem call_eq (e : Engine) (c : Call) : e.call c =
    match e.selection c.options with
    | .ok s => (.ok (c.answerOf (e.planFor s c.options).1.prefixer), (e.planFor s c.options).2)
    | .error err => (.error err, e) := by
  rw [call, c.run_eq]
  cases e.selection c.options <;> rfl

/-- A failing call leaves the engine as it was. -/
theorem call_of_error {c : Call} {err : PrefixerError} (h : (e.call c).1 = .error err) : (e.call c).2 = e := by
  rw [call_eq] at h ⊢
  cases hselection : e.selection c.options with
  | ok s =>
    rw [hselection] at h
    cases h
  | error err => rfl

/-- What a call is answered by an engine that has the plan for it compiled. -/
def compiledAnswer (e : Engine) (c : Call) : Except PrefixerError Answer :=
  (e.selection c.options).map fun s => c.answerOf (Prefixer.compile e.table s c.options)

/-- One call: the answer is that of the plan compiled for it, and the engine is sound afterwards. -/
theorem IsSound.call (h : e.IsSound) (hagents : ∀ a ∈ e.agents, ' ' ∉ a.name) (c : Call) :
    (e.call c).1 = e.compiledAnswer c ∧ (e.call c).2.IsSound ∧ SameData e (e.call c).2 := by
  rw [call_eq, compiledAnswer]
  cases hselection : e.selection c.options with
  | error err => exact ⟨rfl, h, ⟨rfl, rfl, rfl⟩⟩
  | ok s =>
    obtain ⟨hplan, hsound, hdata⟩ := h.planFor hagents hselection
    refine ⟨congrArg Except.ok ?_, hsound, hdata⟩
    rw [← c.answerOf_asking, hplan, c.answerOf_asking]

/-- Calls one after the other: every answer is that of the plan compiled for it. -/
theorem IsSound.callAll (h : e.IsSound) (hagents : ∀ a ∈ e.agents, ' ' ∉ a.name) (cs : List Call) :
    (callAll cs e).1 = cs.map e.compiledAnswer ∧ (callAll cs e).2.IsSound ∧ SameData e (callAll cs e).2 := by
  induction cs generalizing e with
  | nil => exact ⟨rfl, h, ⟨rfl, rfl, rfl⟩⟩
  | cons c cs ih =>
    obtain ⟨hanswer, hsound, hdata⟩ := h.call hagents c
    obtain ⟨hanswers, hlast, hlastData⟩ := ih hsound (by rwa [hdata.agents])
    have hcompiled : (e.call c).2.compiledAnswer = e.compiledAnswer := by
      funext c'
      rw [compiledAnswer, compiledAnswer, hdata.selection, hdata.table]
    refine ⟨?_, hlast, hdata.trans hlastData⟩
    rw [Engine.callAll, List.map_cons, hanswer, hanswers, hcompiled]

/-- A table of one agent. -/
def chromeAlone : AgentTable := [⟨"chrome", "Chrome", "-webkit-", [], ["20", "30"]⟩]

end Engine

end VendorCss
