import Mathlib.Data.List.Nodup

/-! Tokens that are lent out: a free list and, for each holder, at most one token. -/
namespace NodejsPool.Leases
open Function

variable {Token Holder : Type}

structure Shared (tokens free : List Token) (holds : Holder → Option Token) : Prop where
  distinct : free.Nodup
  apart : ∀ holder token, holds holder = some token → token ∉ free
  single : ∀ holder other token, holds holder = some token → holds other = some token → holder = other
  all : ∀ token, token ∈ tokens ↔ token ∈ free ∨ ∃ holder, holds holder = some token

variable {tokens free : List Token} {holds : Holder → Option Token} {token : Token} {holder : Holder}

theorem shared_start (distinct : tokens.Nodup) : Shared tokens tokens fun _ : Holder => none where
  distinct := distinct
  apart _ _ := nofun
  single _ _ _ := nofun
  all token := by simp

theorem Shared.once [DecidableEq Token] (shared : Shared tokens free holds) (member : token ∈ tokens) :
    (free.count token = 1 ∧ ∀ holder, holds holder ≠ some token) ∨
      (free.count token = 0 ∧ ∃! holder, holds holder = some token) := by
  rcases (shared.all token).mp member with inside | ⟨holder,held⟩
  · exact .inl ⟨List.count_eq_one_of_mem shared.distinct inside,fun holder held =>
      shared.apart holder token held inside⟩
  · refine .inr ⟨List.count_eq_zero.mpr (shared.apart holder token held),holder,held,?_⟩
    intro other there
    exact shared.single other holder token there held

theorem Shared.lost [DecidableEq Token] (shared : Shared tokens (free ++ [token]) holds) :
    token ∈ tokens ∧ free.count token = 0 ∧ ∀ holder, holds holder ≠ some token := by
  have last : token ∈ free ++ [token] := List.mem_append_right _ (List.mem_singleton_self _)
  obtain ⟨_,_,fresh⟩ := List.nodup_append.mp shared.distinct
  refine ⟨(shared.all token).mpr (.inl last),List.count_eq_zero.mpr ?_,fun holder held =>
    shared.apart holder token held last⟩
  exact fun member => fresh token member token (List.mem_singleton_self _) rfl

variable [DecidableEq Holder]

theorem Shared.take (shared : Shared tokens (free ++ [token]) holds) (empty : holds holder = none) :
    Shared tokens free (update holds holder (some token)) := by
  obtain ⟨distinct,_,fresh⟩ := List.nodup_append.mp shared.distinct
  have gone : token ∉ free := fun member => fresh token member token (List.mem_singleton_self _) rfl
  have held : ∀ other found, update holds holder (some token) other = some found →
      (other = holder ∧ found = token) ∨ holds other = some found := by
    intro other found here
    by_cases same : other = holder
    · subst same
      rw [update_self] at here
      exact .inl ⟨rfl,(Option.some.inj here).symm⟩
    · rw [update_of_ne same] at here
      exact .inr here
  have last : ∀ other, holds other ≠ some token := fun other here =>
    shared.apart other token here (List.mem_append_right _ (List.mem_singleton_self _))
  refine ⟨distinct,?_,?_,?_⟩
  · intro other found here
    rcases held other found here with ⟨_,rfl⟩ | before
    · exact gone
    · exact fun member => shared.apart other found before (List.mem_append_left _ member)
  · intro first second found here there
    rcases held first found here with ⟨rfl,rfl⟩ | before
    · rcases held second found there with ⟨rfl,_⟩ | before
      · rfl
      · exact absurd before (last second)
    · rcases held second found there with ⟨rfl,rfl⟩ | beside
      · exact absurd before (last first)
      · exact shared.single first second found before beside
  · intro found
    rw [shared.all found,List.mem_append,List.mem_singleton]
    constructor
    · rintro ((member | rfl) | ⟨other,before⟩)
      · exact .inl member
      · exact .inr ⟨holder,update_self ..⟩
      · refine .inr ⟨other,?_⟩
        rwa [update_of_ne]
        rintro rfl
        rw [empty] at before
        cases before
    · rintro (member | ⟨other,here⟩)
      · exact .inl (.inl member)
      · rcases held other found here with ⟨_,rfl⟩ | before
        · exact .inl (.inr rfl)
        · exact .inr ⟨other,before⟩

theorem Shared.give (shared : Shared tokens free holds) (held : holds holder = some token) :
    Shared tokens (free ++ [token]) (update holds holder none) := by
  have before : ∀ other found, update holds holder none other = some found → other ≠ holder ∧
      holds other = some found := by
    intro other found here
    by_cases same : other = holder
    · subst same
      rw [update_self] at here
      cases here
    · rw [update_of_ne same] at here
      exact ⟨same,here⟩
  refine ⟨?_,?_,?_,?_⟩
  · rw [List.nodup_append]
    refine ⟨shared.distinct,List.nodup_singleton _,?_⟩
    intro first member last single same
    obtain rfl := List.mem_singleton.mp single
    exact shared.apart holder _ held (same ▸ member)
  · intro other found here member
    obtain ⟨different,there⟩ := before other found here
    rcases List.mem_append.mp member with free | single
    · exact shared.apart other found there free
    · obtain rfl := List.mem_singleton.mp single
      exact different (shared.single other holder _ there held)
  · intro first second found here there
    exact shared.single first second found (before first found here).2 (before second found there).2
  · intro found
    rw [shared.all found,List.mem_append,List.mem_singleton]
    constructor
    · rintro (member | ⟨other,there⟩)
      · exact .inl (.inl member)
      · by_cases same : other = holder
        · subst same
          exact .inl (.inr (Option.some.inj (there.symm.trans held)))
        · exact .inr ⟨other,by rwa [update_of_ne same]⟩
    · rintro ((member | rfl) | ⟨other,here⟩)
      · exact .inl member
      · exact .inr ⟨holder,held⟩
      · exact .inr ⟨other,(before other found here).2⟩

end NodejsPool.Leases
