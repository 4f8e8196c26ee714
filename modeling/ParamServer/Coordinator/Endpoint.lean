import ParamServer.Text
import ParamServer.Worker.Discovery

/-! The endpoint of the parameter server on its way from the arguments of the coordinator, where it
is split at its first colon, to the workers, which put it together again. -/

namespace ParamServer

open Library Session

/-- `localhost:50051` -/
def defaultEndpoint : List UInt8 :=
  [108, 111, 99, 97, 108, 104, 111, 115, 116, 58, 53, 48, 48, 53, 49]

/-- The address and the port of the argument for the parameter server. -/
def splitEndpoint (psAddress : List UInt8) : Option (List UInt8 × Int32) :=
  match psAddress.dropWhile (· ≠ 58) with
  | [] => some (psAddress, 50051)
  | _ :: port => (stoi port).map fun psPort => (psAddress.takeWhile (· ≠ 58), psPort)

/-- `main` of the coordinator, up to `run_coordinator_server`; there is no result when `stoi`
throws. -/
def coordinatorMain (args : List (List UInt8)) : Option (List UInt8 × CoordinatorCore) :=
  -- 0.0.0.0:50052
  let serverAddress := args[0]?.getD [48, 46, 48, 46, 48, 46, 48, 58, 53, 48, 48, 53, 50]
  match args[1]? with
  -- the default is not split
  | none => some (serverAddress, .new defaultEndpoint 50051)
  | some psAddress =>
    (splitEndpoint psAddress).map fun endpoint => (serverAddress, .new endpoint.1 endpoint.2)

/-- The coordinator comes up with these arguments, and every discovery against it gives the
endpoint. -/
def Advertises (args : List (List UInt8)) (endpoint : List UInt8) : Prop :=
  ∃ server coordinator, coordinatorMain args = some (server, coordinator) ∧
    ∀ client attempts, client.initialized = false →
      (discoverParameterServer attempts ⟨client, coordinator⟩).1 = true →
        (discoverParameterServer attempts ⟨client, coordinator⟩).2.client.psAddress = endpoint

theorem advertises_iff {args : List (List UInt8)} {endpoint : List UInt8} :
    Advertises args endpoint ↔ ∃ server coordinator,
      coordinatorMain args = some (server, coordinator) ∧
        coordinator.psAddress ++ [58] ++ decimal coordinator.psPort = endpoint := by
  unfold Advertises
  refine exists_congr fun server => exists_congr fun coordinator => and_congr_right fun _ => ?_
  have hspec : ∀ (client : WorkerClient) (attempts : ℕ → Attempt), client.initialized = false →
      (discoverParameterServer attempts ⟨client, coordinator⟩).1 = true →
        (discoverParameterServer attempts ⟨client, coordinator⟩).2.client.psAddress =
          coordinator.psAddress ++ [58] ++ decimal coordinator.psPort := by
    intro client attempts hinit hdone
    exact ((discoverParameterServer_spec ⟨⟨rfl, rfl⟩, hinit⟩ attempts).1 hdone).2
  constructor
  · intro hall
    let client : WorkerClient := ⟨0, [], 0, [], false, 0⟩
    let attempts : ℕ → Attempt := fun _ => ⟨[], 0, .answered⟩
    have hdone : (discoverParameterServer attempts ⟨client, coordinator⟩).1 = true :=
      (discoverParameterServer_fst attempts _).mpr ⟨0, by decide, rfl⟩
    rw [← hspec client attempts rfl hdone]
    exact hall client attempts rfl hdone
  · rintro heq client attempts hinit hdone
    rw [← heq]
    exact hspec client attempts hinit hdone

theorem colon_notMem_decimal (n : Int32) : 58 ∉ decimal n := by
  rw [decimal_eq, List.mem_append]
  rintro (hsign | hdigit)
  · split at hsign
    · exact absurd (List.mem_singleton.mp hsign) (by decide)
    · cases hsign
  · exact absurd (isDigit_of_mem_digitsOf hdigit) (by decide)

/-- The text up to the first colon, and after it. -/
theorem splitEndpoint_append {host : List UInt8} (h : 58 ∉ host) (rest : List UInt8) :
    splitEndpoint (host ++ 58 :: rest) = (stoi rest).map fun psPort => (host, psPort) := by
  have hhost : ∀ b ∈ host, decide (b ≠ 58) = true := by
    intro b hb
    refine decide_eq_true ?_
    rintro rfl
    exact h hb
  unfold splitEndpoint
  rw [List.dropWhile_append_of_pos hhost, List.takeWhile_append_of_pos hhost]
  simp

theorem splitEndpoint_roundTrip_iff (host : List UInt8) (p : Int32) :
    (∃ psAddress psPort, splitEndpoint (host ++ [58] ++ decimal p) = some (psAddress, psPort) ∧
      psAddress ++ [58] ++ decimal psPort = host ++ [58] ++ decimal p) ↔ 58 ∉ host := by
  constructor
  · rintro ⟨psAddress, psPort, hsplit, heq⟩ hmem
    -- what follows the first colon of the host goes to the port, whose text has no colon
    obtain ⟨name, rest, rfl, hname⟩ := List.eq_append_cons_of_mem hmem
    have htext : (name ++ 58 :: rest) ++ [58] ++ decimal p =
        name ++ 58 :: (rest ++ 58 :: decimal p) := by simp
    rw [htext, splitEndpoint_append hname] at hsplit
    obtain ⟨port, -, hpair⟩ := Option.map_eq_some_iff.mp hsplit
    obtain ⟨rfl, rfl⟩ := Prod.mk.inj hpair
    rw [htext, List.append_assoc, List.append_cancel_left_eq, List.singleton_append,
      List.cons_inj_right] at heq
    refine colon_notMem_decimal port ?_
    rw [heq]
    exact List.mem_append_right _ List.mem_cons_self
  · intro h
    have hend : EndsNumber [] := by simp [EndsNumber]
    have hport := stoi_decimal p hend
    rw [List.append_nil] at hport
    refine ⟨host, p, ?_, rfl⟩
    rw [List.append_assoc, List.singleton_append, splitEndpoint_append h, hport]
    rfl

/-- Workers discover the endpoint that the coordinator is given exactly if its host has no colon,
and they never discover the default one. -/
theorem advertises_iff_noColon (server host : List UInt8) (p : Int32)
    (rest : List (List UInt8)) :
    (Advertises (server :: (host ++ [58] ++ decimal p) :: rest) (host ++ [58] ++ decimal p) ↔
      58 ∉ host) ∧
    ¬Advertises [] defaultEndpoint ∧ ¬Advertises [server] defaultEndpoint := by
  have hdefault : ∀ args : List (List UInt8), args[1]? = none →
      ¬Advertises args defaultEndpoint := by
    intro args hargs hadv
    obtain ⟨server, coordinator, hmain, heq⟩ := advertises_iff.mp hadv
    rw [coordinatorMain, hargs] at hmain
    obtain ⟨-, rfl⟩ := Prod.mk.inj (Option.some.inj hmain)
    exact endpoint_ne defaultEndpoint 50051 heq
  refine ⟨?_, hdefault [] rfl, hdefault [server] rfl⟩
  rw [advertises_iff, ← splitEndpoint_roundTrip_iff host p]
  constructor
  · rintro ⟨_, coordinator, hmain, heq⟩
    obtain ⟨⟨psAddress, psPort⟩, hsplit, hpair⟩ := Option.map_eq_some_iff.mp hmain
    obtain ⟨-, rfl⟩ := Prod.mk.inj hpair
    exact ⟨psAddress, psPort, hsplit, heq⟩
  · rintro ⟨psAddress, psPort, hsplit, heq⟩
    exact ⟨server, .new psAddress psPort, Option.map_eq_some_iff.mpr ⟨_, hsplit, rfl⟩, heq⟩

/-- Without arguments workers discover `localhost:50051:50051`, and with `[::1]:50051` there is no
coordinator. -/
theorem endpoint_not_advertised :
    (∃ server coordinator, coordinatorMain [] = some (server, coordinator) ∧
      discoverParameterServer (fun _ => ⟨[], 0, .answered⟩)
          ⟨⟨0, [], 0, [], false, 0⟩, coordinator⟩ =
        (true, ⟨⟨0, [], 0, defaultEndpoint ++ [58, 53, 48, 48, 53, 49], false, 0⟩, coordinator⟩)) ∧
    coordinatorMain [[48, 46, 48, 46, 48, 46, 48, 58, 53, 48, 48, 53, 50],
      [91, 58, 58, 49, 93] ++ [58] ++ decimal 50051] = none :=
  ⟨⟨_, _, rfl, rfl⟩, by decide +kernel⟩

end ParamServer
