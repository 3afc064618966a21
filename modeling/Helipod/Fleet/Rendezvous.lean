import Helipod.JumpHash
import Mathlib.Data.List.Induction
import Mathlib.Data.Prod.Lex

/-!
# Placement of shards on the nodes of a fleet

Model of `fleet/src/rendezvous.ts` and of `targetsFor` (`fleet/src/balancer.ts`).

Result: `rendezvous_minimal`.
-/

namespace Helipod

open List

def rendezvousWeight (shardId advertiseUrl : JsString) : BitVec 64 :=
  fnv1a64 (utf8Encode (shardId ++ js " " ++ advertiseUrl))

/-- One round of the loop, with `bestWeight` and `bestUrl`. -/
def considerUrl (shardId : JsString) (best : Int × JsString) (url : JsString) : Int × JsString :=
  let w : Int := (rendezvousWeight shardId url).toNat
  if best.1 < w ∨ w = best.1 ∧ url < best.2 then (w, url) else best

def rendezvousOwner (shardId : JsString) (liveUrls : List JsString) : JsString :=
  (liveUrls.foldl (considerUrl shardId) (-1, [])).2

/-- The shards that the node `myUrl` is to own. -/
def targetsFor (multiWriter : Bool) (shards : List JsString) (myUrl : JsString)
    (liveUrls : List JsString) : List JsString :=
  if !multiWriter then shards else shards.filter fun s => rendezvousOwner s liveUrls = myUrl

variable {shardId url : JsString} {urls urls' : List JsString}

/-- What the owner has the greatest of. -/
def rank (shardId url : JsString) : Int ×ₗ JsStringᵒᵈ :=
  toLex (((rendezvousWeight shardId url).toNat : Int), OrderDual.toDual url)

theorem rank_injective : Function.Injective (rank shardId) := fun _ _ h =>
  (Prod.mk.inj (toLex.injective h)).2

/-- The loop keeps a URL of the list with its weight. -/
theorem rendezvousOwner_cases (urls : List JsString) : urls = [] ∨
    (urls.foldl (considerUrl shardId) (-1, [])).1 =
        (rendezvousWeight shardId (rendezvousOwner shardId urls)).toNat ∧
      rendezvousOwner shardId urls ∈ urls ∧
      ∀ u ∈ urls, rank shardId u ≤ rank shardId (rendezvousOwner shardId urls) := by
  induction urls using reverseRecOn with
  | nil => exact .inl rfl
  | append_singleton urls url ih =>
    refine .inr ?_
    unfold rendezvousOwner at ih ⊢
    rw [foldl_concat]
    rcases ih with rfl | ⟨hw, hmem, hmax⟩
    · have hpos : (-1 : Int) < (rendezvousWeight shardId url).toNat := by omega
      simp [considerUrl, hpos]
    generalize urls.foldl (considerUrl shardId) (-1, []) = best at hw hmem hmax ⊢
    have hlt : best.1 < (rendezvousWeight shardId url).toNat ∨
        ((rendezvousWeight shardId url).toNat : Int) = best.1 ∧ url < best.2 ↔
          rank shardId best.2 < rank shardId url := by
      rw [hw, rank, rank, Prod.Lex.toLex_lt_toLex, OrderDual.toDual_lt_toDual, eq_comm]
    rw [considerUrl]
    simp only [hlt, mem_append, mem_singleton, or_imp, forall_and, forall_eq]
    split
    · rename_i hlt
      exact ⟨rfl, .inr rfl, fun u hu => (hmax u hu).trans hlt.le, le_rfl⟩
    · rename_i hlt
      exact ⟨hw, .inl hmem, hmax, not_lt.1 hlt⟩

theorem rendezvousOwner_eq (hmem : url ∈ urls)
    (hmax : ∀ u ∈ urls, rank shardId u ≤ rank shardId url) :
    rendezvousOwner shardId urls = url := by
  obtain rfl | ⟨-, howner, hge⟩ := @rendezvousOwner_cases shardId urls
  · cases hmem
  · exact rank_injective (le_antisymm (hmax _ howner) (hge url hmem))

/-- The owner depends only on which URLs there are. A shard moves to a URL that is added, or from
one that is removed, and in multi-writer mode every shard is a target of exactly one node. -/
theorem rendezvous_minimal (shards : List JsString) :
    (∀ shardId urls urls', (∀ u : JsString, u ∈ urls ↔ u ∈ urls') →
      rendezvousOwner shardId urls = rendezvousOwner shardId urls') ∧
    (∀ shardId url urls, rendezvousOwner shardId (url :: urls) ≠ rendezvousOwner shardId urls →
      rendezvousOwner shardId (url :: urls) = url) ∧
    (∀ shardId url urls, rendezvousOwner shardId (urls.filter (· ≠ url)) ≠
      rendezvousOwner shardId urls → rendezvousOwner shardId urls = url) ∧
    ∀ urls ≠ [], ∀ s ∈ shards, ∃ url ∈ urls, ∀ u, s ∈ targetsFor true shards u urls ↔ u = url := by
  refine ⟨fun shardId urls urls' h => ?_, fun shardId url urls h => ?_,
    fun shardId url urls h => ?_, fun urls hne s hs => ?_⟩
  · obtain rfl | ⟨-, hmem, hmax⟩ := @rendezvousOwner_cases shardId urls'
    · rw [eq_nil_iff_forall_not_mem.2 fun u hu => not_mem_nil ((h u).1 hu)]
    · exact rendezvousOwner_eq ((h _).2 hmem) fun u hu => hmax u ((h u).1 hu)
  · obtain hnil | ⟨-, hmem, hmax⟩ := @rendezvousOwner_cases shardId (url :: urls)
    · cases hnil
    · refine (mem_cons.1 hmem).resolve_right fun hmem => h ?_
      exact (rendezvousOwner_eq hmem fun u hu => hmax u (mem_cons_of_mem _ hu)).symm
  · by_contra hne
    obtain rfl | ⟨-, hmem, hmax⟩ := @rendezvousOwner_cases shardId urls
    · exact h rfl
    · exact h (rendezvousOwner_eq (by simp [hmem, hne]) fun u hu => hmax u (mem_of_mem_filter hu))
  · obtain hnil | ⟨-, hmem, -⟩ := @rendezvousOwner_cases s urls
    · exact absurd hnil hne
    · exact ⟨_, hmem, fun u => by simp [targetsFor, hs, eq_comm]⟩

/-- In single-writer mode every node has all shards as targets. -/
theorem single_writer_targets_shared : ∃ urls : List JsString, ∃ u ∈ urls, ∃ v ∈ urls, u ≠ v ∧
    js "default" ∈ targetsFor false [js "default"] u urls ∧
    js "default" ∈ targetsFor false [js "default"] v urls :=
  ⟨[js "a", js "b"], js "a", by simp, js "b", by simp, by decide, by decide, by decide⟩

end Helipod
