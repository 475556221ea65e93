import Mathlib.Data.Set.Card
import Mathlib.Logic.Relation

namespace Dhttp.Lib
open Relation
set_option autoImplicit true

/-- Breadth-first search for a goal in a finite graph. -/
def search [Finite σ] [DecidableEq σ] (next : σ → List σ) (goal : σ → Bool) (seen : Finset σ) :
    List σ → Bool
  | [] => false
  | s :: queue =>
    if s ∈ seen then search next goal seen queue
    else if goal s then true
    else search next goal (insert s seen) (queue ++ next s)
termination_by queue => (Set.ncard {x | x ∉ seen}, queue.length)
decreasing_by
  · exact Prod.Lex.right _ (Nat.lt_succ_self _)
  · apply Prod.Lex.left
    apply Set.ncard_lt_ncard _ (Set.toFinite _)
    refine ⟨fun x hx hs => hx (Finset.mem_insert_of_mem hs), fun h => ?_⟩
    exact h (a := s) ‹_› (Finset.mem_insert_self _ _)

/-- Some goal is reachable along the edges of the graph. -/
def ReachesGoal (next : σ → List σ) (goal : σ → Bool) (s : σ) : Prop :=
  ∃ g, ReflTransGen (fun x y => y ∈ next x) s g ∧ goal g = true

variable [Finite σ] [DecidableEq σ] {next : σ → List σ} {goal : σ → Bool}

theorem search_sound {seen : Finset σ} {queue : List σ}
    (h : search next goal seen queue = true) : ∃ s ∈ queue, ReachesGoal next goal s := by
  induction seen, queue using search.induct next goal with
  | case1 seen => simp [search] at h
  | case2 seen s queue hs ih =>
    rw [search, if_pos hs] at h
    obtain ⟨x, hx, hg⟩ := ih h
    exact ⟨x, List.mem_cons_of_mem _ hx, hg⟩
  | case3 seen s queue hs hg => exact ⟨s, List.mem_cons_self, s, .refl, hg⟩
  | case4 seen s queue hs hg ih =>
    rw [search, if_neg hs, if_neg hg] at h
    obtain ⟨x, hx, g, hr, hgg⟩ := ih h
    rcases List.mem_append.1 hx with hq | hn
    · exact ⟨x, List.mem_cons_of_mem _ hq, g, hr, hgg⟩
    · exact ⟨s, List.mem_cons_self, g, .head hn hr, hgg⟩

/-- The seen states hold no goal, and the edges out of them stay in the seen or queued states. -/
def Explored (next : σ → List σ) (goal : σ → Bool) (seen : Finset σ) (queue : List σ) : Prop :=
  ∀ x ∈ seen, goal x = false ∧ ∀ y ∈ next x, y ∈ seen ∨ y ∈ queue

omit [Finite σ] [DecidableEq σ] in
theorem Explored.queued {seen : Finset σ} {queue : List σ}
    (h : Explored next goal seen queue) (hs : s ∈ seen) (hg : ReachesGoal next goal s) :
    ∃ x ∈ queue, ReachesGoal next goal x := by
  obtain ⟨g, hr, hgg⟩ := hg
  induction hr using ReflTransGen.head_induction_on with
  | refl => simp [(h _ hs).1] at hgg
  | head hxy hr ih =>
    rcases (h _ hs).2 _ hxy with hy | hy
    · exact ih hy
    · exact ⟨_, hy, _, hr, hgg⟩

theorem search_complete {seen : Finset σ} {queue : List σ}
    (h : Explored next goal seen queue) (hg : ∃ s ∈ queue, ReachesGoal next goal s) :
    search next goal seen queue = true := by
  induction seen, queue using search.induct next goal with
  | case1 seen => simp at hg
  | case2 seen s queue hs ih =>
    have hq : Explored next goal seen queue := by
      refine fun x hx => ⟨(h x hx).1, fun y hy => ?_⟩
      rcases (h x hx).2 y hy with hy | hy
      · exact .inl hy
      · rcases List.mem_cons.1 hy with rfl | hy
        · exact .inl hs
        · exact .inr hy
    rw [search, if_pos hs]
    apply ih hq
    obtain ⟨x, hx, hr⟩ := hg
    rcases List.mem_cons.1 hx with rfl | hx
    · exact hq.queued hs hr
    · exact ⟨x, hx, hr⟩
  | case3 seen s queue hs hgs => rw [search, if_neg hs, if_pos hgs]
  | case4 seen s queue hs hgs ih =>
    rw [search, if_neg hs, if_neg hgs]
    apply ih
    · intro x hx
      rcases Finset.mem_insert.1 hx with rfl | hx
      · exact ⟨Bool.eq_false_iff.2 hgs, fun y hy => .inr (List.mem_append_right _ hy)⟩
      · refine ⟨(h x hx).1, fun y hy => ?_⟩
        rcases (h x hx).2 y hy with hy | hy
        · exact .inl (Finset.mem_insert_of_mem hy)
        · rcases List.mem_cons.1 hy with rfl | hy
          · exact .inl (Finset.mem_insert_self _ _)
          · exact .inr (List.mem_append_left _ hy)
    · obtain ⟨x, hx, g, hr, hgg⟩ := hg
      rcases List.mem_cons.1 hx with rfl | hx
      · rcases ReflTransGen.cases_head hr with rfl | ⟨y, hy, hr⟩
        · exact absurd hgg hgs
        · exact ⟨y, List.mem_append_right _ hy, g, hr, hgg⟩
      · exact ⟨x, List.mem_append_left _ hx, g, hr, hgg⟩

/-- The search terminates with the right answer. -/
theorem search_iff (s : σ) : search next goal ∅ [s] = true ↔ ReachesGoal next goal s := by
  constructor
  · intro h
    obtain ⟨x, hx, hg⟩ := search_sound h
    rwa [List.mem_singleton.1 hx] at hg
  · intro hg
    exact search_complete (fun x hx => absurd hx (Finset.notMem_empty x))
      ⟨s, List.mem_singleton_self s, hg⟩

end Dhttp.Lib
