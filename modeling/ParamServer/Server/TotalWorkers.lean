import Mathlib.Data.Int.Interval
import ParamServer.Server.Completion
import ParamServer.Text

/-! What `total_workers` a server can be started with, and which workers can then make it train. It
comes from the command line as an `int` and is compared as a `size_t`: a server that is started with
a negative number waits forever. -/

namespace ParamServer

open Library

/-- `main` of the server, up to `run_server`; there is no result when `stoi` throws. -/
def parameterMain (args : List (List UInt8)) : Option (List UInt8 × Int32 × Int32) := do
  -- 0.0.0.0:50051
  let serverAddress := args[0]?.getD [48, 46, 48, 46, 48, 46, 48, 58, 53, 48, 48, 53, 49]
  let totalWorkers ← (args[1]?.map stoi).getD (some 2)
  let checkpointInterval ← (args[2]?.map stoi).getD (some 10)
  return (serverAddress, totalWorkers, checkpointInterval)

/-- The scripts write out the numbers that the server then gets. -/
theorem parameterMain_decimal (serverAddress : List UInt8) (totalWorkers interval : Int32) :
    parameterMain [serverAddress, decimal totalWorkers, decimal interval] =
      some (serverAddress, totalWorkers, interval) := by
  have hnumber : ∀ n : Int32, stoi (decimal n) = some n := by
    intro n
    have h : stoi (decimal n ++ []) = some n := stoi_decimal n nofun
    rwa [List.append_nil] at h
  unfold parameterMain
  simp [hnumber]

section Quorum

theorem card_le_ids (W : Finset Int32) : W.card ≤ 2 ^ 32 := by
  have hmaps : ∀ w ∈ W, w.toInt ∈ Finset.Ico (-2 ^ 31 : ℤ) (2 ^ 31) := by
    intro w _
    exact Finset.mem_Ico.mpr ⟨w.le_toInt, w.toInt_lt⟩
  have hcard := Finset.card_le_card_of_injOn Int32.toInt hmaps
    fun v _ w _ h => Int32.toInt_inj.mp h
  rwa [Int.card_Ico] at hcard

/-- There are ids for as many workers as a server can wait for. -/
theorem exists_workers {K : Finset Int32} {n : ℕ} (hK : K.card ≤ n) (hn : n ≤ 2 ^ 31) :
    ∃ W, K ⊆ W ∧ W.card = n := by
  let ids := (Finset.range (2 ^ 31)).image Int32.ofNat
  have hids : ids.card = 2 ^ 31 := by
    rw [Finset.card_image_of_injOn, Finset.card_range]
    intro a ha b hb hab
    have hint := congrArg Int32.toInt hab
    rw [Int32.toInt_ofNat_of_lt (Finset.mem_range.mp ha),
      Int32.toInt_ofNat_of_lt (Finset.mem_range.mp hb)] at hint
    exact Int.ofNat_inj.mp hint
  have hmany : n ≤ (K ∪ ids).card :=
    hn.trans (hids.ge.trans (Finset.card_le_card Finset.subset_union_right))
  obtain ⟨W, hKW, -, hW⟩ := Finset.exists_subsuperset_card_eq Finset.subset_union_left hK hmany
  exact ⟨W, hKW, hW⟩

theorem quorum_le_iff (N : Int32) {n : ℕ} (hn : n ≤ 2 ^ 32) :
    quorum N ≤ n ↔ 0 < n ∧ 0 ≤ N.toInt ∧ N.toInt ≤ n := by
  have hlow := N.le_toInt
  by_cases hneg : 0 ≤ N.toInt
  · rw [quorum, toSizeT_of_nonneg hneg]
    omega
  · -- as a `size_t` it exceeds the number of worker ids
    have hsize : 2 ^ 64 - 2 ^ 31 ≤ toSizeT N := by
      unfold toSizeT
      omega
    refine iff_of_false (fun h => ?_) fun h => hneg h.2.1
    have hle := (le_max_right 1 (toSizeT N)).trans h
    omega

end Quorum

section Pushers

variable {V : Type}

theorem pushers_of_workers {W : Finset Int32} {ps : List (Push V)} (h : ∀ p ∈ ps, p.workerId ∈ W)
    (k : Int32) : pushers k ps ⊆ W := by
  intro w hw
  obtain ⟨p, hp, rfl⟩ := List.mem_map.mp (List.mem_toFinset.mp hw)
  exact h p (List.mem_filter.mp hp).1

theorem pushers_map (W : Finset Int32) (k : Int32) :
    pushers k (W.toList.map fun w => (⟨w, k, []⟩ : Push V)) = W := by
  ext w
  simp [pushers, pushesFor, senders]

end Pushers

namespace ParameterServerCore

variable {V : Type} [Scalar V] (ord : VisitOrder)

/-- The workers in `W` can get an iteration aggregated if and only if there is one and there are
not fewer of them than `total_workers`, which is not negative. Otherwise nothing that they push has
any effect on the parameters. -/
theorem can_complete_iff (N : Int32) (P₀ : List (Tensor V)) (W : Finset Int32) (k : Int32) :
    let s₀ := (new N).initializeParameters P₀
    let able := W.Nonempty ∧ 0 ≤ N.toInt ∧ N.toInt ≤ W.card
    ((∃ ps : List (Push V), (∀ p ∈ ps, p.workerId ∈ W) ∧
        ((s₀.runPushes ord ps).checkSyncStatus k).1 = true) ↔ able) ∧
      (¬able → ∀ ps : List (Push V), (∀ p ∈ ps, p.workerId ∈ W) →
        (s₀.runPushes ord ps).serveParameters k = P₀ ∧
          ∀ p : Push V, p.workerId ∈ W → ((s₀.runPushes ord ps).receive ord p).1 = false) := by
  intro s₀ able
  have hable : quorum s₀.totalWorkers ≤ W.card ↔ able :=
    (quorum_le_iff N (card_le_ids W)).trans (and_congr_left' Finset.card_pos)
  have hfew : ∀ ps : List (Push V), (∀ p ∈ ps, p.workerId ∈ W) → ∀ k,
      (pushers k ps).card ≤ W.card := fun ps hps k =>
    Finset.card_le_card (pushers_of_workers hps k)
  refine ⟨⟨?_, fun h => ?_⟩, fun h ps hps => ⟨?_, fun p hp => ?_⟩⟩
  · rintro ⟨ps, hps, hready⟩
    rw [checkSyncStatus_runPushes ord rfl, decide_eq_true_iff] at hready
    exact hable.mp (hready.trans (hfew ps hps k))
  · refine ⟨W.toList.map fun w => ⟨w, k, []⟩, fun p hp => ?_, ?_⟩
    · obtain ⟨w, hw, rfl⟩ := List.mem_map.mp hp
      exact Finset.mem_toList.mp hw
    · rw [checkSyncStatus_runPushes ord rfl, decide_eq_true_iff, pushers_map]
      exact hable.mpr h
  · have hnone : s₀.lineage ord ps = [] := lineage_eq_nil ord rfl fun k =>
      (hfew ps hps k).trans_lt (Nat.not_le.mp (mt hable.mp h))
    change (s₀.runPushes ord ps).parameters = P₀
    rw [runPushes_parameters, hnone]
    rfl
  · rw [receive_runPushes ord rfl, decide_eq_false_iff_not]
    intro hquorum
    refine h (hable.mp (hquorum.trans (hfew _ (fun q hq => ?_) _)))
    rcases List.mem_append.mp hq with hq | hq
    · exact hps q hq
    · rw [List.mem_singleton.mp hq]
      exact hp

end ParameterServerCore

end ParamServer
