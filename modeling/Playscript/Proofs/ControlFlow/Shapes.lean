import Playscript.Proofs.ControlFlow.FilledPlan

/-! # Only flat flows are kept in every filling

    A flat flow is kept whatever it is filled with.  Every other shape is lost in the one
    filling of `Flow.fill`, when its loops go through enough words:

    * a loop in an arm, or an `if` in a loop, asks for more commands under a condition than
      are ever done under one;
    * a loop in a loop asks for a product of words, and is done a linear number of times;
    * an `if` in an arm, or an `elif`, asks for the condition of its own test, and every
      condition has the left side of the first test;
    * an `else` asks for a condition of no test before it, and once the others are ruled out
      every condition is that of the first test. -/

namespace Playscript

open Shell (Node)
open Session (Visit visit visits plan guardText)

/-! ## What a filled flow asks for -/

/-- Whether a place is in no arm. -/
def Guard.isFree : Guard → Bool
  | .free => true
  | .test _ => false
  | .otherwise _ => false

theorem mem_flatten_replicate {α : Type} {a : α} {xs : List α} {n : Nat} (hn : 1 ≤ n)
    (ha : a ∈ xs) : a ∈ (List.replicate n xs).flatten :=
  List.mem_flatten.mpr ⟨xs, List.mem_replicate.mpr ⟨by omega, rfl⟩, ha⟩

mutual

/-- In an arm everything is asked for in an arm. -/
theorem Flow.demands_guarded : ∀ (flow : Flow) (guard : Guard), guard.isFree = false →
    ∀ d ∈ flow.demands guard, d.guard.isFree = false
  | .command _, guard, hguard, d, hd => by
      rw [Flow.demands, List.mem_singleton] at hd
      rw [hd]
      exact hguard
  | .sequence flows, guard, hguard, d, hd => Flows.demands_guarded flows guard hguard d hd
  | .branch test body arms, guard, hguard, d, hd => by
      rw [Flow.demands] at hd
      rcases List.mem_append.mp hd with hd | hd
      · exact Flow.demands_guarded body _ rfl d hd
      · exact Arms.demands_guarded arms _ d hd
  | .loop _ _ _ body, guard, hguard, d, hd => by
      rw [Flow.demands] at hd
      obtain ⟨turn, hturn, hd⟩ := List.mem_flatten.mp hd
      rw [List.eq_of_mem_replicate hturn] at hd
      exact Flow.demands_guarded body guard hguard d hd

theorem Flows.demands_guarded : ∀ (flows : Flows) (guard : Guard), guard.isFree = false →
    ∀ d ∈ flows.demands guard, d.guard.isFree = false
  | .last flow _, guard, hguard, d, hd => Flow.demands_guarded flow guard hguard d hd
  | .next flow _ rest, guard, hguard, d, hd => by
      rw [Flows.demands] at hd
      rcases List.mem_append.mp hd with hd | hd
      · exact Flow.demands_guarded flow guard hguard d hd
      · exact Flows.demands_guarded rest guard hguard d hd

theorem Arms.demands_guarded : ∀ (arms : Arms) (before : List Test),
    ∀ d ∈ arms.demands before, d.guard.isFree = false
  | .fi, _, d, hd => nomatch hd
  | .otherwise body, before, d, hd => Flow.demands_guarded body _ rfl d hd
  | .elif test body rest, before, d, hd => by
      rw [Arms.demands] at hd
      rcases List.mem_append.mp hd with hd | hd
      · exact Flow.demands_guarded body _ rfl d hd
      · exact Arms.demands_guarded rest _ d hd

end

section Filled

variable (words : List String)

mutual

/-- A filled flow within an arm asks for something in its place, or in that of an inner test. -/
theorem Flow.exists_demand : ∀ (flow : Flow) (guard : Guard),
    ∃ d ∈ (flow.fill words (.comparing "inner")).demands guard,
      d.guard = guard ∨ d.guard = .test (.comparing "inner")
  | .command _, guard => ⟨_, List.mem_singleton_self _, .inl rfl⟩
  | .sequence flows, guard => Flows.exists_demand flows guard
  | .branch _ body arms, guard => by
      obtain ⟨d, hd, hguard⟩ := Flow.exists_demand body (.test (.comparing "inner"))
      exact ⟨d, List.mem_append_left _ hd, .inr (or_self_iff.mp hguard)⟩
  | .loop _ _ _ body, guard => by
      obtain ⟨d, hd, hguard⟩ := Flow.exists_demand body guard
      exact ⟨d, mem_flatten_replicate (Nat.le_max_right _ _) hd, hguard⟩

theorem Flows.exists_demand : ∀ (flows : Flows) (guard : Guard),
    ∃ d ∈ (flows.fill words (.comparing "inner")).demands guard,
      d.guard = guard ∨ d.guard = .test (.comparing "inner")
  | .last flow _, guard => Flow.exists_demand flow guard
  | .next flow _ rest, guard => by
      obtain ⟨d, hd, hguard⟩ := Flow.exists_demand flow guard
      exact ⟨d, List.mem_append_left _ hd, hguard⟩

end

mutual

/-- An `if` asks for the condition of its test, or of an inner one. -/
theorem Flow.exists_tested : ∀ (flow : Flow) (test : Test) (guard : Guard), flow.Branches →
    ∃ d ∈ (flow.fill words test).demands guard,
      d.guard = .test test ∨ d.guard = .test (.comparing "inner")
  | .command _, _, _, h => nomatch h
  | .sequence flows, test, guard, h => Flows.exists_tested flows test guard h
  | .branch _ body arms, test, guard, _ => by
      obtain ⟨d, hd, hguard⟩ := Flow.exists_demand words body (.test test)
      exact ⟨d, List.mem_append_left _ hd, hguard⟩
  | .loop _ _ _ body, test, guard, h => by
      obtain ⟨d, hd, hguard⟩ := Flow.exists_tested body test guard h
      exact ⟨d, mem_flatten_replicate (Nat.le_max_right _ _) hd, hguard⟩

theorem Flows.exists_tested : ∀ (flows : Flows) (test : Test) (guard : Guard), flows.Branches →
    ∃ d ∈ (flows.fill words test).demands guard,
      d.guard = .test test ∨ d.guard = .test (.comparing "inner")
  | .last flow _, test, guard, h => Flow.exists_tested flow test guard h
  | .next flow _ rest, test, guard, h => by
      rcases h with h | h
      · obtain ⟨d, hd, hguard⟩ := Flow.exists_tested flow test guard h
        exact ⟨d, List.mem_append_left _ hd, hguard⟩
      · obtain ⟨d, hd, hguard⟩ := Flows.exists_tested rest test guard h
        exact ⟨d, List.mem_append_right _ hd, hguard⟩

end

/-- So within an arm it asks for the condition of an inner test. -/
theorem Flow.exists_inner (flow : Flow) (guard : Guard) (h : flow.Branches) :
    ∃ d ∈ (flow.fill words (.comparing "inner")).demands guard,
      d.guard = .test (.comparing "inner") := by
  obtain ⟨d, hd, hguard⟩ := flow.exists_tested words (.comparing "inner") guard h
  exact ⟨d, hd, or_self_iff.mp hguard⟩

mutual

/-- An `if` with an `elif`, or with an `if` within its arms, asks for that condition too. -/
theorem Flow.exists_inner_of_nests : ∀ flow : Flow, flow.Nests →
    ∃ d ∈ (flow.fill words (.comparing "outer")).demands .free,
      d.guard = .test (.comparing "inner")
  | .command _, h => nomatch h
  | .sequence flows, h => Flows.exists_inner_of_nests flows h
  | .branch _ body arms, h => by
      rcases h with h | h
      · obtain ⟨d, hd, hguard⟩ := Flow.exists_inner words body (.test (.comparing "outer")) h
        exact ⟨d, List.mem_append_left _ hd, hguard⟩
      · obtain ⟨d, hd, hguard⟩ : ∃ d ∈ (arms.fill words).demands [.comparing "outer"],
            d.guard = .test (.comparing "inner") := by
          cases arms with
          | fi => exact nomatch h
          | otherwise body => exact Flow.exists_inner words body _ h
          | elif test body rest =>
              obtain ⟨d, hd, hguard⟩ :=
                Flow.exists_demand words body (.test (.comparing "inner"))
              exact ⟨d, List.mem_append_left _ hd, or_self_iff.mp hguard⟩
        exact ⟨d, List.mem_append_right _ hd, hguard⟩
  | .loop _ _ _ body, h => by
      obtain ⟨d, hd, hguard⟩ := Flow.exists_inner_of_nests body h
      exact ⟨d, mem_flatten_replicate (Nat.le_max_right _ _) hd, hguard⟩

theorem Flows.exists_inner_of_nests : ∀ flows : Flows, flows.Nests →
    ∃ d ∈ (flows.fill words (.comparing "outer")).demands .free,
      d.guard = .test (.comparing "inner")
  | .last flow _, h => Flow.exists_inner_of_nests flow h
  | .next flow _ rest, h => by
      rcases h with h | h
      · obtain ⟨d, hd, hguard⟩ := Flow.exists_inner_of_nests flow h
        exact ⟨d, List.mem_append_left _ hd, hguard⟩
      · obtain ⟨d, hd, hguard⟩ := Flows.exists_inner_of_nests rest h
        exact ⟨d, List.mem_append_right _ hd, hguard⟩

end

mutual

/-- Each flow demands something, since its innermost commands do. -/
theorem Flow.demands_pos : ∀ (flow : Flow) (guard : Guard), 0 < (flow.demands guard).length
  | .command _, _ => Nat.one_pos
  | .sequence flows, guard => Flows.demands_pos flows guard
  | .branch test body arms, guard => by
      rw [Flow.demands, List.length_append]
      exact Nat.add_pos_left (Flow.demands_pos body _) _
  | .loop _ words _ body, guard => by
      rw [Flow.demands, List.length_flatten, List.map_replicate, List.sum_replicate_nat]
      exact Nat.mul_pos (by omega) (Flow.demands_pos body guard)

theorem Flows.demands_pos : ∀ (flows : Flows) (guard : Guard), 0 < (flows.demands guard).length
  | .last flow _, guard => Flow.demands_pos flow guard
  | .next flow _ rest, guard => by
      rw [Flows.demands, List.length_append]
      exact Nat.add_pos_left (Flow.demands_pos flow guard) _

end

mutual

/-- A flow with a loop asks for at least as much as there are words. -/
theorem Flow.words_le_demands : ∀ (flow : Flow) (test : Test) (guard : Guard), 0 < flow.loops →
    words.length ≤ ((flow.fill words test).demands guard).length
  | .command _, _, _, h => nomatch h
  | .sequence flows, test, guard, h => Flows.words_le_demands flows test guard h
  | .branch _ body arms, test, guard, h => by
      rw [Flow.fill, Flow.demands, List.length_append]
      rcases Nat.eq_zero_or_pos body.loops with hbody | hbody
      · have harms : 0 < arms.loops := by
          rw [Flow.loops, hbody] at h
          omega
        exact Nat.le_trans (Arms.words_le_demands arms _ harms) (Nat.le_add_left _ _)
      · exact Nat.le_trans (Flow.words_le_demands body _ _ hbody) (Nat.le_add_right _ _)
  | .loop _ _ _ body, test, guard, _ => by
      have hpos := Flow.demands_pos (body.fill words test) guard
      rw [Flow.fill, Flow.demands, List.length_flatten, List.map_replicate,
        List.sum_replicate_nat]
      exact Nat.le_trans (Nat.le_max_left _ 1) (Nat.le_mul_of_pos_right _ hpos)

theorem Flows.words_le_demands : ∀ (flows : Flows) (test : Test) (guard : Guard),
    0 < flows.loops → words.length ≤ ((flows.fill words test).demands guard).length
  | .last flow _, test, guard, h => Flow.words_le_demands flow test guard h
  | .next flow _ rest, test, guard, h => by
      rw [Flows.fill, Flows.demands, List.length_append]
      rcases Nat.eq_zero_or_pos flow.loops with hflow | hflow
      · have hrest : 0 < rest.loops := by
          rw [Flows.loops, hflow] at h
          omega
        exact Nat.le_trans (Flows.words_le_demands rest test guard hrest) (Nat.le_add_left _ _)
      · exact Nat.le_trans (Flow.words_le_demands flow test guard hflow) (Nat.le_add_right _ _)

theorem Arms.words_le_demands : ∀ (arms : Arms) (before : List Test), 0 < arms.loops →
    words.length ≤ ((arms.fill words).demands before).length
  | .fi, _, h => nomatch h
  | .otherwise body, before, h => Flow.words_le_demands body _ _ h
  | .elif _ body rest, before, h => by
      rw [Arms.fill, Arms.demands, List.length_append]
      rcases Nat.eq_zero_or_pos body.loops with hbody | hbody
      · have hrest : 0 < rest.loops := by
          rw [Arms.loops, hbody] at h
          omega
        exact Nat.le_trans (Arms.words_le_demands rest _ hrest) (Nat.le_add_left _ _)
      · exact Nat.le_trans (Flow.words_le_demands body _ _ hbody) (Nat.le_add_right _ _)

end

/-- Few demands, fewer still in an arm, and none for the condition of an inner test or for that
    of an `else`. -/
structure Modest (n : Nat) (demands : List Demand) : Prop where
  inner : ∀ d ∈ demands, d.guard ≠ .test (.comparing "inner")
  otherwise : ∀ d ∈ demands, d.guard ≠ .otherwise [.comparing "outer"]
  guarded : demands.countP (fun d => !d.guard.isFree) < n
  length : demands.length < n * n

/-- With fewer demands there is less to ask. -/
theorem Modest.of_sublist {n : Nat} {few many : List Demand} (h : Modest n many)
    (hsub : few.Sublist many) : Modest n few where
  inner d hd := h.inner d (hsub.subset hd)
  otherwise d hd := h.otherwise d (hsub.subset hd)
  guarded := Nat.lt_of_le_of_lt hsub.countP_le h.guarded
  length := Nat.lt_of_le_of_lt hsub.length_le h.length

/-- The arm of a test whose demands are modest is straight. -/
theorem Flow.straight_arm {body : Flow}
    (h : Modest words.length
      ((body.fill words (.comparing "inner")).demands (.test (.comparing "outer")))) :
    body.Straight := by
  refine Flow.straight_of body ?_ ?_
  · intro hbranches
    obtain ⟨d, hd, hguard⟩ := Flow.exists_inner words body _ hbranches
    exact h.inner d hd hguard
  · by_contra hloops
    have hwords := Flow.words_le_demands words body (.comparing "inner")
      (.test (.comparing "outer")) (Nat.pos_of_ne_zero hloops)
    -- every demand of the arm is one in an arm, so the bound on those bounds them all
    have hguarded := h.guarded
    rw [List.countP_eq_length.mpr fun d hd => ?_] at hguarded
    · omega
    · rw [Flow.demands_guarded _ (.test (.comparing "outer")) rfl d hd]
      rfl

/-- Turns whose demands together are modest go through a straight body. -/
theorem Flow.straight_turn {body : Flow}
    (h : Modest words.length (List.replicate (max words.length 1)
      ((body.fill words (.comparing "outer")).demands .free)).flatten) :
    body.Straight := by
  refine Flow.straight_of body ?_ ?_
  · intro hbranches
    obtain ⟨d, hd, htest⟩ := body.exists_tested words (.comparing "outer") .free hbranches
    have hguard : d.guard.isFree = false := by
      rcases htest with htest | htest
      · rw [htest]
        rfl
      · rw [htest]
        rfl
    have hpos : 0 < ((body.fill words (.comparing "outer")).demands .free).countP
        fun d => !d.guard.isFree :=
      List.countP_pos_iff.mpr ⟨d, hd, (Bool.not_eq_true' _).mpr hguard⟩
    have hguarded := h.guarded
    rw [List.countP_flatten, List.map_replicate, List.sum_replicate_nat] at hguarded
    have hturns := Nat.le_mul_of_pos_right (max words.length 1) hpos
    omega
  · by_contra hloops
    have hwords := Flow.words_le_demands words body (.comparing "outer") .free
      (Nat.pos_of_ne_zero hloops)
    have hlength := h.length
    rw [List.length_flatten, List.map_replicate, List.sum_replicate_nat] at hlength
    -- each turn of the loop asks for all turns of the loop within it
    have hturns := Nat.mul_le_mul (Nat.le_max_left words.length 1) hwords
    omega

mutual

/-- **A flow whose filling asks for little is flat.** -/
theorem Flow.flat_of_modest : ∀ flow : Flow,
    Modest words.length ((flow.fill words (.comparing "outer")).demands .free) → flow.Flat
  | .command _, _ => trivial
  | .sequence flows, h => Flows.flat_of_modest flows h
  | .branch _ body arms, h => by
      have hbody := h.of_sublist (List.sublist_append_left _ _)
      have harms : Modest words.length ((arms.fill words).demands [.comparing "outer"]) :=
        h.of_sublist (List.sublist_append_right _ _)
      refine ⟨Flow.straight_arm words hbody, ?_⟩
      cases arms with
      | fi => rfl
      | otherwise body =>
          obtain ⟨d, hd, hguard⟩ :=
            Flow.exists_demand words body (.otherwise [.comparing "outer"])
          rcases hguard with hguard | hguard
          · exact absurd hguard (harms.otherwise d hd)
          · exact absurd hguard (harms.inner d hd)
      | elif test body rest =>
          obtain ⟨d, hd, hguard⟩ := Flow.exists_demand words body (.test (.comparing "inner"))
          exact absurd (or_self_iff.mp hguard) (harms.inner d (List.mem_append_left _ hd))
  | .loop _ _ _ body, h => Flow.straight_turn words h

theorem Flows.flat_of_modest : ∀ flows : Flows,
    Modest words.length ((flows.fill words (.comparing "outer")).demands .free) → flows.Flat
  | .last flow _, h => Flow.flat_of_modest flow h
  | .next flow _ rest, h =>
      ⟨Flow.flat_of_modest flow (h.of_sublist (List.sublist_append_left _ _)),
        Flows.flat_of_modest rest (h.of_sublist (List.sublist_append_right _ _))⟩

end

end Filled

/-! ## What a kept filling asks for -/

theorem verdict?_inner : (Test.comparing "inner").verdict?
    = some ⟨true, false, "inner == inner"⟩ := by
  rfl

theorem verdict?_outer : (Test.comparing "outer").verdict? = some (verdictOn "outer") := by
  rfl

namespace Flow.Kept

variable {flow : Flow} {s : Session} {sides : List String} {k cost : Nat}

/-- Each demand of a kept flow is met by a visit. -/
theorem exists_visit (h : flow.Kept s) {d : Demand} (hd : d ∈ flow.demands .free) :
    ∃ v ∈ visits flow.toNode s, d.Meets v := by
  obtain ⟨seen, hseen, hmeets⟩ := h.visited
  obtain ⟨v, hv, hdv⟩ := exists_of_forall₂ hmeets.flip hd
  exact ⟨v, hseen.subset hv, hdv⟩

/-- A kept flow asks for no more than is done. -/
theorem length_demands (h : flow.Kept s) (hcounted : Counted sides k cost (plan flow.toNode)) :
    (flow.demands .free).length ≤ cost := by
  obtain ⟨seen, hseen, hmeets⟩ := h.visited
  rw [hmeets.length_eq]
  exact Nat.le_trans hseen.length_le (hcounted.length_visits s)

/-- A kept flow asks for no more in its arms than is done under a condition. -/
theorem guarded_demands (h : flow.Kept s) (hcounted : Counted sides k cost (plan flow.toNode)) :
    (flow.demands .free).countP (fun d => !d.guard.isFree) ≤ k := by
  obtain ⟨seen, hseen, hmeets⟩ := h.visited
  refine Nat.le_trans ?_ (hcounted.guarded_visits s)
  refine Nat.le_trans (countP_le_of_forall₂ hmeets ?_) (hseen.countP_le Visit.isGuarded)
  intro d v hv hdv hguard
  obtain ⟨task, htasks, -⟩ := hcounted.tasks_of_visit (hseen.subset hv)
  have haccepts := hdv.2 task (by rw [htasks]; exact List.mem_singleton_self task)
  rw [Visit.isGuarded, htasks, List.any_cons, List.any_nil, Bool.or_false]
  cases hplace : d.guard with
  | free => rw [hplace] at hguard; cases hguard
  | test own =>
      rw [hplace] at haccepts
      obtain ⟨_, _, -, hwhen⟩ := haccepts
      rw [hwhen, Option.isSome_some]
  | otherwise before =>
      rw [hplace] at haccepts
      obtain ⟨_, hwhen, -⟩ := haccepts
      rw [hwhen, Option.isSome_some]

/-- The condition for a demand of a kept flow in an arm is one of the few. -/
theorem when_of_demand (h : flow.Kept s) (hcounted : Counted sides k cost (plan flow.toNode))
    {d : Demand} (hd : d ∈ flow.demands .free) :
    ∃ task, d.guard.Accepts task ∧ ∀ condition, task.get? "when" = some condition →
      ∃ side ∈ sides, condition = .text (verdictOn side).shown := by
  obtain ⟨v, hv, hdv⟩ := h.exists_visit hd
  obtain ⟨task, htasks, hwhen⟩ := hcounted.tasks_of_visit hv
  exact ⟨task, hdv.2 task (by rw [htasks]; exact List.mem_singleton_self task), hwhen⟩

/-- None of the conditions is that of an inner test. -/
theorem guard_ne_inner (h : flow.Kept s)
    (hcounted : Counted ["outer", "inner"] k cost (plan flow.toNode)) :
    ∀ d ∈ flow.demands .free, d.guard ≠ .test (.comparing "inner") := by
  intro d hd hguard
  obtain ⟨task, haccepts, hwhen⟩ := h.when_of_demand hcounted hd
  rw [hguard] at haccepts
  obtain ⟨register, verdict, hverdict, htask⟩ := haccepts
  obtain rfl := Option.some.inj (verdict?_inner.symm.trans hverdict)
  obtain ⟨side, hside, hshown⟩ := hwhen _ htask
  have hdiffers : ∀ side ∈ ["outer", "inner"], "inner == inner" ≠ (verdictOn side).shown := by
    decide
  exact hdiffers side hside (Scalar.text.inj (Value.scalar.inj hshown))

/-- If every condition is that of the first test, then none is that of an `else`. -/
theorem guard_ne_otherwise (h : flow.Kept s)
    (hcounted : Counted ["outer"] k cost (plan flow.toNode)) :
    ∀ d ∈ flow.demands .free, d.guard ≠ .otherwise [.comparing "outer"] := by
  intro d hd hguard
  obtain ⟨task, haccepts, hwhen⟩ := h.when_of_demand hcounted hd
  rw [hguard] at haccepts
  obtain ⟨text, htask, hothers⟩ := haccepts
  obtain ⟨side, hside, hshown⟩ := hwhen _ htask
  rw [List.mem_singleton.mp hside] at hshown
  exact hothers _ (List.mem_singleton_self _) none _ verdict?_outer
    (Scalar.text.inj (Value.scalar.inj hshown))

end Flow.Kept

/-! ## The shapes that are kept -/

mutual

/-- Being straight is a matter of the shape. -/
theorem Flow.straight_shape : ∀ flow : Flow, flow.shape.Straight ↔ flow.Straight
  | .command _ => Iff.rfl
  | .sequence flows => Flows.straight_shape flows
  | .branch _ _ _ => Iff.rfl
  | .loop _ _ _ _ => Iff.rfl

theorem Flows.straight_shape : ∀ flows : Flows, flows.shape.Straight ↔ flows.Straight
  | .last flow _ => Flow.straight_shape flow
  | .next flow _ rest => and_congr (Flow.straight_shape flow) (Flows.straight_shape rest)

end

theorem Arms.shape_eq_fi (arms : Arms) : arms.shape = .fi ↔ arms = .fi := by
  cases arms with
  | fi => exact Iff.rfl
  | otherwise body => exact ⟨fun h => (nomatch h), fun h => (nomatch h)⟩
  | elif test body rest => exact ⟨fun h => (nomatch h), fun h => (nomatch h)⟩

mutual

/-- So is being flat. -/
theorem Flow.flat_shape : ∀ flow : Flow, flow.shape.Flat ↔ flow.Flat
  | .command _ => Iff.rfl
  | .sequence flows => Flows.flat_shape flows
  | .branch _ body arms => and_congr (Flow.straight_shape body) arms.shape_eq_fi
  | .loop _ _ _ body => Flow.straight_shape body

theorem Flows.flat_shape : ∀ flows : Flows, flows.shape.Flat ↔ flows.Flat
  | .last flow _ => Flow.flat_shape flow
  | .next flow _ rest => and_congr (Flow.flat_shape flow) (Flows.flat_shape rest)

end

theorem Flow.counted_both (words : List String) (flow : Flow) :
    Counted ["outer", "inner"] flow.commands.length (flow.cost words.length)
      (plan (flow.fill words (.comparing "outer")).toNode) :=
  Flow.counted (by decide) (by decide) words flow fun _ => by decide

/-- A flow is flat if its fillings are kept by a new session, whatever words they go through. -/
theorem Flow.flat_of_fills_kept (flow : Flow)
    (hkept : ∀ words, (flow.fill words (.comparing "outer")).Kept {}) : flow.Flat := by
  -- with more words than the cost for one word, what is done falls short of a product
  obtain ⟨words, hwords⟩ : ∃ words : List String, words.length = flow.cost 1 + 1 :=
    ⟨List.replicate (flow.cost 1 + 1) "w", List.length_replicate⟩
  have hkept := hkept words
  have hcounted := flow.counted_both words
  have hinner := hkept.guard_ne_inner hcounted
  have hnests : ¬ flow.Nests := by
    intro hnests
    obtain ⟨d, hd, hguard⟩ := Flow.exists_inner_of_nests words flow hnests
    exact hinner d hd hguard
  have hcost : flow.cost words.length < words.length * words.length := by
    refine Nat.lt_of_le_of_lt (Flow.cost_le (by omega) flow) ?_
    exact Nat.mul_lt_mul_of_pos_left (by omega) (by omega)
  refine Flow.flat_of_modest words flow ⟨hinner, ?_, ?_, ?_⟩
  · -- without an inner test every condition is that of the first, which an `else` may not have
    exact hkept.guard_ne_otherwise
      (Flow.counted (by decide) (by decide) words flow fun h => absurd h hnests)
  · have hcommands := Flow.commands_le_cost 1 flow
    have hguarded := hkept.guarded_demands hcounted
    omega
  · exact Nat.lt_of_le_of_lt (hkept.length_demands hcounted) hcost

/-- **Exactly the flat shapes are kept.**  Whatever commands, tests and words a flat shape is
    filled with, and from whatever session it is visited, each command is done once for each
    turn, under the condition of its own arm.  Every other shape has a filling that ends well
    and loses a command or the condition of one. -/
theorem Flow.kept_iff_flat (flow : Flow) :
    (∀ filled : Flow, filled.shape = flow.shape → ∀ s : Session,
      (visit filled.toNode).outcome s = .ok () → filled.Kept s) ↔ flow.Flat := by
  constructor
  · intro hkept
    refine flow.flat_of_fills_kept fun words => ?_
    exact hkept _ (Flow.shape_fill words _ flow) {}
      (visit_outcome_of_counted (flow.counted_both words) {})
  · intro hflat filled hshape s hok
    have hfilled : filled.Flat := by
      rw [← Flow.flat_shape, hshape, Flow.flat_shape]
      exact hflat
    exact filled.kept_of_flat hfilled hok

/-- `if [ outer -eq outer ]; then if [ inner -eq inner ]; then ldconfig; fi; ldconfig; fi`. -/
def nestedBranch : Flow :=
  .branch (.comparing "outer")
    (.sequence (.next (.branch (.comparing "inner") (.command ldconfigParts) .fi) ";"
      (.last (.command ldconfigParts) (some ";"))))
    .fi

/-- The command behind the inner `fi` is lost. -/
theorem nestedBranch_not_kept :
    (visit nestedBranch.toNode).outcome {} = .ok () ∧ ¬ nestedBranch.Kept {} := by
  have hvisits : (visits nestedBranch.toNode {}).length = 1 := rfl
  -- it is its own filling, so it ends well as all of them do
  refine ⟨visit_outcome_of_counted (nestedBranch.counted_both []) {}, ?_⟩
  intro hkept
  obtain ⟨seen, hseen, hmeets⟩ := hkept.visited
  have hlength := hseen.length_le
  rw [← hmeets.length_eq, hvisits] at hlength
  exact absurd hlength (by decide)

end Playscript
