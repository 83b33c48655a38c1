import FlashNext.Verified.Checked

/-!
# Delayed hyper-connections: the decoder stack of a pipeline stage

Every sublayer leaves its output and injection pending.  The next sublayer combines
the pair into the residual streams inside its own fused kernel.  A pair is combined
on its own before a PLE layer, before a deepstack addition and at the end of a stage.
-/

namespace FlashNext.Ports.HyperConnection

variable {α : Type}

/-- One row of features for each token. -/
abbrev Tensor (α : Type) := List (List α)

/-- `repeat(1, hc_count)`, and `unsqueeze(-2).expand(.., hc_count, ..).flatten(-2)`. -/
def repeatStreams (hcCount : Nat) (x : Tensor α) : Tensor α :=
  x.map fun row => (List.replicate hcCount row).flatten

/-- Elementwise addition. -/
def addTensor [Add α] (x y : Tensor α) : Tensor α :=
  List.zipWith (List.zipWith (· + ·)) x y

inductive ForwardError where
  | runtimeError (message : String)
  | valueError (message : String)
  | typeError
  | assertion
  | sizeMismatch
  deriving DecidableEq, Repr

/-! ## One layer -/

/-- The kernels of a hyper-connection module.  `mix` and `combineAndMix` return the
streams, the input of the block and the injection of its output. -/
structure GatedResidual (α : Type) where
  combine : Tensor α → Tensor α → Tensor α → Tensor α
  mix : Tensor α → Tensor α × Tensor α × Tensor α
  combineAndMix : Tensor α → Tensor α → Tensor α → Tensor α × Tensor α × Tensor α

abbrev Positions := List (List Int)

/-- The attention of a layer, chosen by `layer_type`. -/
inductive Attention (α : Type) where
  | linearAttention (linearAttn : Tensor α → Tensor α)
  | fullAttention (selfAttn : Tensor α → Positions → Tensor α)

def Attention.run (attn : Attention α) (x : Tensor α) (positions : Positions) : Tensor α :=
  match attn with
  | .linearAttention linearAttn => linearAttn x
  | .fullAttention selfAttn => selfAttn x positions

structure DecoderLayer (α : Type) where
  ple : Option (Tensor α → List Int → List Int → List (List Int) → Tensor α)
  attn : Attention α
  mlp : Tensor α → Tensor α
  attnHyperConnection : GatedResidual α
  mlpHyperConnection : GatedResidual α

/-- The arguments of `forward` that do not come from the stage before. -/
structure ForwardArgs (α : Type) where
  inputIds : Option (List Int)
  positions : Positions
  inputsEmbeds : Option (Tensor α)
  queryStartLoc : Option (List Int)
  ngramContext : Option (List (List Int))
  deepstackInputEmbeds : Option (List (Tensor α))

/-- A multi-stream state whose last block output may still be pending. -/
structure Streams (α : Type) where
  hiddenStates : Tensor α
  blockOutput : Option (Tensor α)
  injection : Option (Tensor α)

/-- Combine what is pending, if anything is. -/
def Streams.materialize (hc : GatedResidual α) (s : Streams α) : Streams α :=
  match s.blockOutput, s.injection with
  | some out, some inj => ⟨hc.combine s.hiddenStates out inj, none, none⟩
  | _, _ => s

/-- Fuse a pending combine with the mix of this module when possible. -/
def Streams.mix (hc : GatedResidual α) (s : Streams α) : Tensor α × Tensor α × Tensor α :=
  match s.blockOutput, s.injection with
  | some out, some inj => hc.combineAndMix s.hiddenStates out inj
  | _, _ => hc.mix s.hiddenStates

variable [Add α]

/-- The PLE inputs of the step. -/
def ForwardArgs.pleInputs (args : ForwardArgs α) :
    Except ForwardError (List Int × List Int × List (List Int)) :=
  match args.inputIds, args.queryStartLoc, args.ngramContext with
  | some inputIds, some queryStartLoc, some ngramContext =>
      .ok (inputIds, queryStartLoc, ngramContext)
  | _, _, _ => .error (.runtimeError "PLE inputs were not prepared")

/-- The PLE branch of `Qwen4ExpDecoderLayer.forward`. -/
def DecoderLayer.addPle (layer : DecoderLayer α) (args : ForwardArgs α) (s : Streams α) :
    Except ForwardError (Streams α) :=
  match layer.ple with
  | none => .ok s
  | some ple => do
      let s := s.materialize layer.attnHyperConnection
      let (inputIds, queryStartLoc, ngramContext) ← args.pleInputs
      let embeds := ple s.hiddenStates inputIds queryStartLoc ngramContext
      return { s with hiddenStates := addTensor s.hiddenStates embeds }

/-- `Qwen4ExpDecoderLayer.forward`. -/
def DecoderLayer.forward (layer : DecoderLayer α) (args : ForwardArgs α) (s : Streams α) :
    Except ForwardError (Tensor α × Tensor α × Tensor α) := do
  let s ← layer.addPle args s
  let (hiddenStates, blockInput, injection) := s.mix layer.attnHyperConnection
  let attnOut := layer.attn.run blockInput args.positions
  let (hiddenStates, blockInput, injection) :=
    layer.mlpHyperConnection.combineAndMix hiddenStates attnOut injection
  let mlpOut := layer.mlp blockInput
  return (hiddenStates, mlpOut, injection)

/-! ## The layers of a stage -/

/-- The deepstack embeddings of a layer, if it has any. -/
def ForwardArgs.deepstack (args : ForwardArgs α) (layerIdx : Nat) : Option (Tensor α) :=
  (args.deepstackInputEmbeds.getD [])[layerIdx]?

structure LoopState (α : Type) where
  streams : Streams α
  lastLayer : Option (DecoderLayer α)

/-- One turn of the loop over the layers of the stage. -/
def layerStep (hcCount : Nat) (args : ForwardArgs α) (s : LoopState α)
    (entry : DecoderLayer α × Nat) : Except ForwardError (LoopState α) := do
  let (layer, layerIdx) := entry
  let (hiddenStates, blockOutput, injection) ← layer.forward args s.streams
  match args.deepstack layerIdx with
  | none => return ⟨⟨hiddenStates, some blockOutput, some injection⟩, some layer⟩
  | some deepstackEmbed =>
      let hiddenStates := layer.mlpHyperConnection.combine hiddenStates blockOutput injection
      return ⟨⟨addTensor hiddenStates (repeatStreams hcCount deepstackEmbed), none, none⟩,
        some layer⟩

/-- A pipeline stage.  `layers` are its own layers, the first of them at `startLayer`. -/
structure Qwen4ExpModel (α : Type) where
  hcCount : Nat
  embedTokens : List Int → Tensor α
  startLayer : Nat
  layers : List (DecoderLayer α)
  isFirstRank : Bool
  isLastRank : Bool
  hyperConnectionMixer : Option (GatedResidual α)
  mtpHiddenBuffer : Option (Tensor α)

/-- What leaves a stage: the materialized streams, or the sampled stream and the
buffer that keeps the streams for the drafter. -/
inductive StageOutput (α : Type) where
  | intermediateTensors (hiddenStates : Tensor α)
  | sampled (sampleHiddenStates : Tensor α) (mtpHiddenBuffer : Option (Tensor α))
  deriving DecidableEq

/-- The streams the first layer of the stage starts from. -/
def Qwen4ExpModel.input (model : Qwen4ExpModel α) (args : ForwardArgs α)
    (intermediateTensors : Option (Tensor α)) : Except ForwardError (Tensor α) :=
  if model.isFirstRank then
    match args.inputsEmbeds, args.inputIds with
    | some inputsEmbeds, _ => .ok (repeatStreams model.hcCount inputsEmbeds)
    | none, some inputIds => .ok (repeatStreams model.hcCount (model.embedTokens inputIds))
    | none, none => .error (.valueError "input_ids or inputs_embeds is required")
  else
    match intermediateTensors with
    | some hiddenStates => .ok hiddenStates
    | none => .error (.valueError "pipeline stage requires intermediate tensors")

/-- `_mtp_hidden_buffer[:num_tokens].copy_(multi_hidden)`. -/
def copyMtpHidden (multiHidden : Tensor α) :
    Option (Tensor α) → Except ForwardError (Option (Tensor α))
  | none => .ok none
  | some buffer =>
      if multiHidden.length ≤ buffer.length then
        .ok (some (multiHidden ++ buffer.drop multiHidden.length))
      else .error .sizeMismatch

/-- The end of `Qwen4ExpModel.forward`. -/
def Qwen4ExpModel.output (model : Qwen4ExpModel α) (s : LoopState α) :
    Except ForwardError (StageOutput α) :=
  if !model.isLastRank then
    -- one tensor crosses the boundary, never the pending pair
    match s.lastLayer with
    | some lastLayer =>
        .ok (.intermediateTensors
          (s.streams.materialize lastLayer.mlpHyperConnection).hiddenStates)
    | none => .ok (.intermediateTensors s.streams.hiddenStates)
  else
    match model.hyperConnectionMixer with
    | none => .error .assertion
    | some finalMixer =>
        match s.streams.blockOutput, s.streams.injection with
        | some blockOutput, some injection => do
            let (multiHidden, sampleHiddenStates, _) :=
              finalMixer.combineAndMix s.streams.hiddenStates blockOutput injection
            let buffer ← copyMtpHidden multiHidden model.mtpHiddenBuffer
            return .sampled sampleHiddenStates buffer
        -- the fused kernel takes tensors, not `None`
        | _, _ => .error .typeError

/-- `Qwen4ExpModel.forward`. -/
def Qwen4ExpModel.forward (model : Qwen4ExpModel α) (args : ForwardArgs α)
    (intermediateTensors : Option (Tensor α)) : Except ForwardError (StageOutput α) := do
  let hiddenStates ← model.input args intermediateTensors
  let s ← (model.layers.zipIdx model.startLayer).foldlM (layerStep model.hcCount args)
    ⟨⟨hiddenStates, none, none⟩, none⟩
  model.output s

/-- `Qwen4ExpForConditionalGeneration.forward`.  `getDeepstackInputEmbeds` reads the
embeddings that the embedding step of the same batch stored. -/
def conditionalForward (getDeepstackInputEmbeds : Nat → Option (List (Tensor α)))
    (model : Qwen4ExpModel α) (args : ForwardArgs α)
    (intermediateTensors : Option (Tensor α)) : Except ForwardError (StageOutput α) :=
  let inputsEmbeds := if intermediateTensors.isSome then none else args.inputsEmbeds
  let deepstackInputEmbeds :=
    match inputsEmbeds with
    | some x => if model.isFirstRank then getDeepstackInputEmbeds x.length else none
    | none => none
  model.forward { args with inputsEmbeds, deepstackInputEmbeds } intermediateTensors

/-! ## The pipeline -/

/-- What the constructor reads of the configuration. -/
structure ModelConfig (α : Type) where
  hcCount : Nat
  embedTokens : List Int → Tensor α
  finalMixer : GatedResidual α
  mtpHiddenBuffer : Option (Tensor α)

/-- `Qwen4ExpModel.__init__` on one rank. -/
def ModelConfig.stage (config : ModelConfig α) (isFirstRank isLastRank : Bool)
    (startLayer : Nat) (layers : List (DecoderLayer α)) : Qwen4ExpModel α where
  hcCount := config.hcCount
  embedTokens := config.embedTokens
  startLayer := startLayer
  layers := layers
  isFirstRank := isFirstRank
  isLastRank := isLastRank
  hyperConnectionMixer := if isLastRank then some config.finalMixer else none
  mtpHiddenBuffer := if isLastRank then config.mtpHiddenBuffer else none

/-- The stages of a contiguous partition of the layers from `startLayer` on. -/
def ModelConfig.stagesFrom (config : ModelConfig α) (isFirstRank : Bool)
    (startLayer : Nat) : List (List (DecoderLayer α)) → List (Qwen4ExpModel α)
  | [] => []
  | [layers] => [config.stage isFirstRank true startLayer layers]
  | layers :: next :: rest =>
      config.stage isFirstRank false startLayer layers ::
        config.stagesFrom false (startLayer + layers.length) (next :: rest)

def ModelConfig.stages (config : ModelConfig α) (parts : List (List (DecoderLayer α))) :
    List (Qwen4ExpModel α) := config.stagesFrom true 0 parts

/-- The assertion of `Qwen4ExpForConditionalGeneration.__init__` on one rank. -/
def DeepstackAssert (deepstackNumLevel : Nat) (model : Qwen4ExpModel α) : Prop :=
  model.isFirstRank = false → deepstackNumLevel ≤ model.startLayer

/-- The stages one after another.  `forward k` is the call on rank `k`; only the
materialized streams go from one rank to the next. -/
def runStages (forward : Nat → Qwen4ExpModel α → Option (Tensor α) →
      Except ForwardError (StageOutput α)) :
    Nat → List (Qwen4ExpModel α) → Option (Tensor α) → Except ForwardError (StageOutput α)
  | _, [], _ => .error .assertion
  | k, [model], x => forward k model x
  | k, model :: next :: rest, x => do
      match ← forward k model x with
      | .intermediateTensors hiddenStates =>
          runStages forward (k + 1) (next :: rest) (some hiddenStates)
      | .sampled _ _ => .error .assertion

end FlashNext.Ports.HyperConnection
