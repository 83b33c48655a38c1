import FlashNext.Verified.StepRuns
import FlashNext.Ports.PleHandoffSteps

/-!
# Safety of the PLE offload hand-off

With CUDA inputs the D2H copy of launch `N + 1` waits for an event that the
model stream reaches only after it has executed the copy of launch `N`; the
worker therefore never writes `out_buf` under a queued copy, and every run is
safe.

With CPU inputs nothing orders the two: the request thread stages and rings
while the copy of launch `N` is still queued.  A run is safe as long as that
does not happen when the worker writes, and an overrun mixes two launches.
-/

namespace FlashNext.Ports.PleHandoff

open FlashNext.Verified.StepRuns

variable {Ctx Row : Type}

theorem run_inv {cfg : Config Ctx Row} {x : Inputs Ctx} {rows : Nat → Row}
    {s : State Ctx Row} {as : List (Action Ctx)}
    (hrun : Run (step cfg) (Calm cfg) (init x rows) as s) : Inv cfg s :=
  hrun.invariant (fun _ _ _ hI hcalm h => step_inv hI hcalm h)
    (init_inv cfg x rows)

/-- No run whose steps are all calm ever mixes two launches. -/
theorem handoff_safe_of_calm (cfg : Config Ctx Row) (x : Inputs Ctx)
    (rows : Nat → Row) (as : List (Action Ctx)) (s : State Ctx Row)
    (hrun : Run (step cfg) (Calm cfg) (init x rows) as s) : Safe cfg s :=
  (run_inv hrun).safe

/-- With CUDA inputs every run is safe, whatever the interleaving. -/
theorem cudaInline_safe (cfg : Config Ctx Row) (hmode : cfg.mode = .cudaInline)
    (x : Inputs Ctx) (rows : Nat → Row) (as : List (Action Ctx))
    (s : State Ctx Row) (hrun : Run (step cfg) anyStep (init x rows) as s) :
    Safe cfg s := by
  have hcalm : Run (step cfg) (Calm cfg) (init x rows) as s := by
    refine hrun.mono fun s a => ?_
    cases a <;> simp [Calm, hmode]
  exact (run_inv hcalm).safe

/-! ## Two launches with CPU inputs -/

/-- One token and one request; the looked-up row is the token id. -/
def cpuConfig : Config Unit Int where
  mode := .cpuRequestThread
  clampInputIds := true
  lookup := fun x i => x.inputIds.getD i 0
  zeroRow := 0

def oneToken (t : Int) : Batch Unit where
  inputs := ⟨fun _ => t, fun i => i, fun _ => ()⟩
  numReqs := 1
  numTokens := 1

/-- One forward as the host sees it; the GPU has not moved. -/
def hostForward (t : Int) : List (Action Unit) :=
  [.prepareInputs (oneToken t), .launch, .requestThread, .requestThread,
    .requestThread, .requestThread, .requestThread, .requestThread,
    .requestThread, .see, .readInputs, .readInputs, .readInputs, .writeOutBuf,
    .publish, .waitLookupDone, .enqueueCopy, .enqueueForward]

def atRest : State Unit Int := init ⟨fun _ => 0, fun _ => 0, fun _ => ()⟩ (fun _ => 0)

/-- The host runs one forward ahead of the GPU, which then executes the copy
of the first launch. -/
theorem cpuRequestThread_overwrites :
    ∃ s, Run (step cpuConfig) anyStep atRest
      (hostForward 1 ++ hostForward 2 ++ [.execStream]) s ∧
      ¬ Safe cpuConfig s := by
  refine ⟨_, run_of_exec rfl, fun hsafe => ?_⟩
  obtain ⟨b, ⟨-, hb⟩, -, hrows⟩ := hsafe.copies _ (List.mem_singleton_self _)
  obtain rfl : oneToken 1 = b := Option.some.inj hb
  exact absurd (hrows 0 (by decide)) (by decide)

/-- When the GPU executes the first copy and forward in between, both launches
get their own rows. -/
theorem handoff_safe_of_calm_two_forwards :
    ∃ s, Run (step cpuConfig) (Calm cpuConfig) atRest
      (hostForward 1 ++ [.execStream, .execStream] ++ hostForward 2 ++
        [.execStream, .execStream]) s ∧
      s.copies.map (fun c => (c.launch, c.rows 0)) = [(1, 1), (2, 2)] ∧
      Safe cpuConfig s :=
  have hrun := @run_of_exec _ _ (step cpuConfig) (Calm cpuConfig) _ _ _ _ rfl
  ⟨_, hrun, by decide, handoff_safe_of_calm cpuConfig _ _ _ _ hrun⟩

end FlashNext.Ports.PleHandoff
