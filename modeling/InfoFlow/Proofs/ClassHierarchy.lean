import Mathlib.Data.List.Nodup
import Mathlib.Logic.Relation
import InfoFlow.ClassHierarchy

/-! Which classes are superclasses.

The search for the superclasses of a class finds each class that a chain of direct
superclasses leads to, except the class itself, and finds it once. It ends with
nothing left to follow, so no class at the end of a chain is missed. -/

namespace InfoFlow.ClassHierarchy

variable {hierarchy : ClassHierarchy} {origin : String} {search next : Search}

def Direct (hierarchy : ClassHierarchy) (sub sup : String) : Prop :=
  (sub, sup) ∈ hierarchy.edges

namespace Search

theorem foldl_visit (origin : String) (candidates : List String) (search : Search) :
    ∃ fresh, candidates.foldl (visit origin) search =
        ⟨search.pending ++ fresh, search.found ++ fresh⟩ ∧
      fresh ⊆ candidates ∧ candidates ⊆ origin :: (search.found ++ fresh) ∧
      ((origin :: search.found).Nodup → (origin :: (search.found ++ fresh)).Nodup) := by
  induction candidates generalizing search with
  | nil => exact ⟨[], by simp, by simp, by simp, by simp⟩
  | cons candidate rest induction =>
      rw [List.foldl_cons]
      rcases induction (visit origin search candidate) with
        ⟨fresh, result, offered, covered, distinct⟩
      by_cases known : candidate = origin ∨ candidate ∈ search.found
      · have same : visit origin search candidate = search := if_pos known
        rw [same] at result covered distinct
        refine ⟨fresh, by rw [same, result], List.subset_cons_of_subset _ offered, ?_, distinct⟩
        refine List.cons_subset.mpr ⟨?_, covered⟩
        rcases known with equal | found
        · exact List.mem_cons.mpr (.inl equal)
        · exact List.mem_cons_of_mem _ (List.mem_append_left _ found)
      · have added : visit origin search candidate =
            ⟨search.pending ++ [candidate], search.found ++ [candidate]⟩ := if_neg known
        rw [added] at result covered distinct
        simp only [List.append_assoc, List.singleton_append] at result covered distinct
        refine ⟨candidate :: fresh, by rw [added, result], List.cons_subset_cons _ offered, ?_,
          fun before => distinct ?_⟩
        · refine List.cons_subset.mpr ⟨?_, covered⟩
          exact List.mem_cons_of_mem _ (List.mem_append_right _ List.mem_cons_self)
        · rw [not_or] at known
          rw [← List.cons_append]
          refine before.append (List.nodup_singleton _) (List.disjoint_singleton.mpr ?_)
          simpa [List.mem_cons, eq_comm] using known

theorem step_cases (stepped : step hierarchy origin search = some next) :
    ∃ current rest fresh, search.pending = current :: rest ∧
      next = ⟨rest ++ fresh, search.found ++ fresh⟩ ∧
      (∀ sup, sup ∈ fresh → hierarchy.Direct current sup) ∧
      (∀ sup, hierarchy.Direct current sup → sup ∈ origin :: next.found) ∧
      ((origin :: search.found).Nodup → (origin :: next.found).Nodup) := by
  unfold step at stepped
  split at stepped
  · cases stepped
  · next current rest pending =>
      let direct := (hierarchy.edges.filter fun edge => decide (edge.1 = current)).map Prod.snd
      have mem_direct (sup : String) : sup ∈ direct ↔ hierarchy.Direct current sup := by
        simp [direct, Direct]
      rcases foldl_visit origin direct ⟨rest, search.found⟩ with
        ⟨fresh, result, offered, covered, distinct⟩
      have reached : next = ⟨rest ++ fresh, search.found ++ fresh⟩ :=
        (Option.some.inj stepped).symm.trans result
      refine ⟨current, rest, fresh, pending, reached, fun sup new => ?_, fun sup below => ?_, ?_⟩
      · exact (mem_direct sup).mp (offered new)
      · rw [reached]
        exact covered ((mem_direct sup).mpr below)
      · rw [reached]
        exact distinct

/-- What holds all through a search. Whatever was found is above the origin, and
all that is directly above what was found is found too, or will be. -/
structure Valid (hierarchy : ClassHierarchy) (origin : String) (search : Search) : Prop where
  distinct : (origin :: search.found).Nodup
  above : ∀ known, known ∈ origin :: search.found →
    Relation.ReflTransGen hierarchy.Direct origin known
  pending : search.pending ⊆ origin :: search.found
  listed : search.found ⊆ hierarchy.edges.map Prod.snd
  followed : ∀ sub sup, sub ∈ origin :: search.found → hierarchy.Direct sub sup →
    sub ∈ search.pending ∨ sup ∈ origin :: search.found

theorem valid_start (hierarchy : ClassHierarchy) (origin : String) :
    Valid hierarchy origin ⟨[origin], []⟩ where
  distinct := List.nodup_singleton _
  above known member := by
    rw [List.mem_singleton.mp member]
  pending := List.Subset.refl _
  listed := List.nil_subset _
  followed _ _ member _ := .inl member

theorem Valid.step (valid : search.Valid hierarchy origin)
    (stepped : step hierarchy origin search = some next) : next.Valid hierarchy origin := by
  rcases step_cases stepped with ⟨current, rest, fresh, pending, rfl, offered, covered, distinct⟩
  have currentAbove := valid.above current (valid.pending (pending ▸ List.mem_cons_self))
  have kept : origin :: search.found ⊆ origin :: (search.found ++ fresh) :=
    List.cons_subset_cons _ (List.subset_append_left _ _)
  refine ⟨distinct valid.distinct, fun known member => ?_, ?_, ?_, fun sub sup member below => ?_⟩
  · rw [← List.cons_append] at member
    rcases List.mem_append.mp member with earlier | new
    · exact valid.above known earlier
    · exact currentAbove.tail (offered known new)
  · refine List.append_subset.mpr ⟨fun later member => kept (valid.pending ?_), ?_⟩
    · exact pending ▸ List.mem_cons_of_mem _ member
    · exact List.subset_cons_of_subset _ (List.subset_append_right _ _)
  · refine List.append_subset.mpr ⟨valid.listed, fun sup new => ?_⟩
    exact List.mem_map.mpr ⟨_, offered sup new, rfl⟩
  · by_cases now : sub = current
    · exact .inr (covered sup (now ▸ below))
    rw [← List.cons_append] at member
    rcases List.mem_append.mp member with earlier | new
    · rcases valid.followed sub sup earlier below with waiting | found
      · rw [pending] at waiting
        exact .inl (List.mem_append_left _ ((List.mem_cons.mp waiting).resolve_left now))
      · exact .inr (kept found)
    · exact .inl (List.mem_append_right _ new)

theorem Valid.length_le (valid : search.Valid hierarchy origin) :
    search.found.length ≤ hierarchy.edges.length := by
  have bound := (List.nodup_cons.mp valid.distinct).2.length_le_of_subset valid.listed
  rwa [List.length_map] at bound

def remaining (hierarchy : ClassHierarchy) (search : Search) : Nat :=
  search.pending.length + (hierarchy.edges.length - search.found.length)

theorem Valid.remaining_lt (valid : search.Valid hierarchy origin)
    (stepped : Search.step hierarchy origin search = some next) :
    next.remaining hierarchy < search.remaining hierarchy := by
  have bound := (valid.step stepped).length_le
  rcases step_cases stepped with ⟨current, rest, fresh, pending, rfl, -⟩
  simp only [remaining, pending, List.length_append, List.length_cons] at bound ⊢
  omega

theorem exists_finished (hierarchy : ClassHierarchy) (origin : String) :
    ∃ search : Search, search.found = hierarchy.supertypes origin ∧ search.pending = [] ∧
      search.Valid hierarchy origin := by
  have enough : remaining hierarchy ⟨[origin], []⟩ ≤ hierarchy.edges.length + 1 := by
    simp only [remaining, List.length_singleton, List.length_nil]
    omega
  have finished := iterate_finishes (remaining hierarchy)
    (fun _ _ stepped valid => Valid.step valid stepped)
    (fun _ _ stepped valid => valid.remaining_lt stepped) (valid_start hierarchy origin) enough
  refine ⟨_, rfl, ?_, iterate_preserves (fun _ _ stepped valid => Valid.step valid stepped) _
    (valid_start hierarchy origin)⟩
  unfold Search.step at finished
  split at finished
  · assumption
  · cases finished

end Search

/-- Just the classes that a chain of direct superclasses leads to are superclasses, but
for the class at its beginning. -/
theorem mem_supertypes_iff (hierarchy : ClassHierarchy) (origin candidate : String) :
    candidate ∈ hierarchy.supertypes origin ↔
      candidate ≠ origin ∧ Relation.ReflTransGen hierarchy.Direct origin candidate := by
  rcases Search.exists_finished hierarchy origin with ⟨search, found, pending, valid⟩
  rw [← found]
  constructor
  · intro member
    refine ⟨?_, valid.above candidate (List.mem_cons_of_mem _ member)⟩
    rintro rfl
    exact (List.nodup_cons.mp valid.distinct).1 member
  · rintro ⟨different, above⟩
    have reached : candidate ∈ origin :: search.found := by
      clear different
      induction above with
      | refl => exact List.mem_cons_self
      | tail _ below known =>
          rcases valid.followed _ _ known below with waiting | next
          · rw [pending] at waiting
            cases waiting
          · exact next
    exact (List.mem_cons.mp reached).resolve_left different

theorem nodup_supertypes (hierarchy : ClassHierarchy) (origin : String) :
    (hierarchy.supertypes origin).Nodup := by
  rcases Search.exists_finished hierarchy origin with ⟨search, found, -, valid⟩
  rw [← found]
  exact (List.nodup_cons.mp valid.distinct).2

end InfoFlow.ClassHierarchy
