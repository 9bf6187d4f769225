import SwapCalldata.Arguments
import SwapCalldata.Proofs.CanonicalText
import SwapCalldata.Proofs.Slippage
import SwapCalldata.Proofs.WireFaults

/-!
Configurations, the environments they are read from, and the arguments that are put into an
environment first. What an environment held before does not show through, an argument is read back
as it was, and every configuration that is read has a compiler.
-/
namespace SwapCalldata

open Outcome (Reports)

namespace Digits

/-- The decimal text of a word is read back, and there is nothing in it to trim. -/
theorem readWord?_trim_ofNat (word : UInt64) :
    readWord? (Text.trim (ofNat word.toNat)) = some word := by
  have hnonempty : ofNat word.toNat ≠ [] := Nat.toDigits_ne_nil
  have hdigits : ∀ c ∈ ofNat word.toNat, c.isDigit = true := Json.isDigit_of_mem_toDigits
  have hread : read? (ofNat word.toNat) = some word.toNat := by
    unfold read?
    rw [List.isEmpty_eq_false_iff.mpr hnonempty, List.all_eq_true.mpr hdigits, value_ofNat]
    rfl
  rw [Text.trim_of_not_blank fun c hc => Text.not_isBlank_of_isDigit (hdigits c hc)]
  unfold readWord?
  split
  next hplus => exact absurd (hdigits '+' (hplus ▸ List.mem_cons_self)) (by decide)
  next =>
    rw [hread, Option.bind_eq_bind, Option.bind_some, if_pos word.toNat_lt, UInt64.ofNat_toNat]

end Digits

theorem Revision.parse_name (revision : Revision) : parse revision.name = .ok revision := by
  cases revision <;> rfl

namespace Chain

variable {name : String} {id : UInt64}

theorem idOf_eq_ok_iff : idOf name = .ok id ↔ (name, id) ∈ ids := by
  have hnodup : (ids.map Prod.fst).Nodup := by decide
  rw [← Outcome.lookup_eq_some_iff hnodup]
  unfold idOf
  cases ids.lookup name <;> simp

theorem exists_idOf_iff : (∃ id, idOf name = .ok id) ↔ name ∈ ids.map Prod.fst := by
  simp only [idOf_eq_ok_iff, List.mem_map, Prod.exists, exists_and_right, exists_eq_right]

end Chain

namespace Config

variable {env : Environment} {config : Config} {value : String} {bps : UInt64}

def readEntryPoint (value : String) : Except ConfigError Address :=
  (Address.parse value).mapError .badEntryPoint

def readRevision (value : String) : Except ConfigError Revision :=
  (Revision.parse value).mapError fun _ => .badRevision value

def readChain (value : String) : Except ConfigError UInt64 :=
  (Chain.idOf value).mapError fun _ => .badChain value

/-- Each variable is read by itself; one that is not set has its standard value if it has one. -/
theorem ofEnvironment_eq (env : Environment) : ofEnvironment env = (do
    let entryPoint ← (env.text? .entryPoint).elim (.error .missingEntryPoint) readEntryPoint
    let revision ← (env.text? .revision).elim (.ok Revision.standard) readRevision
    let slippageBps ← (env.text? .slippage).elim (.ok standardSlippage) parseSlippage
    let chainId ← readChain ((env.text? .chain).getD standardChain)
    return ⟨entryPoint, revision, slippageBps, chainId⟩) := by
  unfold ofEnvironment readEntryPoint readRevision readChain
  cases env.text? .entryPoint <;> cases env.text? .revision <;> cases env.text? .slippage <;>
    simp only [Option.elim]

/-- The variables of the configuration. -/
def sources : List Variable := [.entryPoint, .revision, .slippage, .chain]

/-- No other variable is looked at. -/
theorem ofEnvironment_congr {env env' : Environment}
    (h : ∀ which ∈ sources, env.text? which = env'.text? which) :
    ofEnvironment env = ofEnvironment env' := by
  unfold ofEnvironment
  rw [h .entryPoint (by decide), h .revision (by decide), h .slippage (by decide),
    h .chain (by decide)]

/-- The text spells a slippage of at most 10000 basis points. -/
def SpellsSlippage (value : String) (bps : UInt64) : Prop :=
  Digits.readWord? (Text.trim value.toList) = some bps ∧ bps ≤ 10000

theorem parseSlippage_eq_ok_iff : parseSlippage value = .ok bps ↔ SpellsSlippage value bps := by
  unfold parseSlippage SpellsSlippage
  cases Digits.readWord? (Text.trim value.toList) with
  | none => simp
  | some read =>
    by_cases hread : read ≤ 10000
    · rw [Option.some.injEq]
      simp only [hread, if_true, Except.ok.injEq]
      exact ⟨fun h => ⟨h, h ▸ hread⟩, fun h => h.1⟩
    · simp only [hread, if_false, reduceCtorEq, Option.some.injEq, false_iff]
      exact fun h => hread (h.1 ▸ h.2)

/-- What the variables of an environment say. -/
structure Describes (env : Environment) (config : Config) : Prop where
  entryPoint : ∃ value, env.text? .entryPoint = some value ∧
    Address.parse value = .ok config.entryPoint
  revision : (env.text? .revision).elim (config.revision = Revision.standard) fun value =>
    Revision.parse value = .ok config.revision
  slippage : (env.text? .slippage).elim (config.slippageBps = standardSlippage) fun value =>
    SpellsSlippage value config.slippageBps
  chain : ((env.text? .chain).getD standardChain, config.chainId) ∈ Chain.ids

theorem elim_eq_ok_iff {α : Type} {value? : Option String} {standard a : α}
    {read : String → Except ConfigError α} : value?.elim (.ok standard) read = .ok a ↔
      value?.elim (a = standard) fun value => read value = .ok a := by
  cases value? with
  | none => exact Except.ok.injEq standard a ▸ eq_comm
  | some value => exact Iff.rfl

theorem elim_error_eq_ok_iff {α : Type} {value? : Option String} {missing : ConfigError} {a : α}
    {read : String → Except ConfigError α} : value?.elim (.error missing) read = .ok a ↔
      ∃ value, value? = some value ∧ read value = .ok a := by
  cases value? with
  | none => simp
  | some value => simp

theorem ofEnvironment_eq_ok_iff : ofEnvironment env = .ok config ↔ Describes env config := by
  rw [ofEnvironment_eq]
  simp only [Outcome.bind_eq_ok_iff, Outcome.pure_eq, Except.ok.injEq, elim_eq_ok_iff,
    elim_error_eq_ok_iff, readEntryPoint, readRevision, readChain, Outcome.mapError_eq_ok_iff,
    parseSlippage_eq_ok_iff, Chain.idOf_eq_ok_iff]
  constructor
  · rintro ⟨entryPoint, hentry, revision, hrevision, bps, hbps, id, hid, rfl⟩
    exact ⟨hentry, hrevision, hbps, hid⟩
  · rintro ⟨hentry, hrevision, hbps, hid⟩
    exact ⟨_, hentry, _, hrevision, _, hbps, _, hid, rfl⟩

theorem Describes.slippage_le (h : Describes env config) : config.slippageBps ≤ 10000 := by
  have hslippage := h.slippage
  cases hvalue : env.text? .slippage with
  | none =>
    -- The standard slippage is the only one that no reader has checked.
    rw [hvalue] at hslippage
    have hstandard : config.slippageBps = standardSlippage := hslippage
    rw [hstandard]
    decide
  | some value =>
    rw [hvalue] at hslippage
    exact hslippage.2

/-- The slippage is looked at twice, and the second look never refuses what the first let pass. -/
theorem Describes.exists_ofConfig (h : Describes env config) :
    ∃ compiler, Compiler.ofConfig config = .ok compiler ∧
      compiler.slippageBps = config.slippageBps ∧
      compiler.registry.entryPoint = config.entryPoint ∧
      compiler.registry.chainId = some config.chainId := by
  let registry := (Registry.standard config.entryPoint).withChain config.chainId
  let compiler : Compiler := ⟨registry, config.slippageBps, h.slippage_le⟩
  exact ⟨compiler, Compiler.ofConfig_eq_ok_iff.mpr ⟨h.slippage_le, rfl, rfl⟩, rfl, rfl, rfl⟩

def revisionFaults (value : String) : List ConfigError :=
  match Revision.parse value with
  | .ok _ => []
  | .error _ => [.badRevision value]

def slippageFaults (value : String) : List ConfigError :=
  match Digits.readWord? (Text.trim value.toList) with
  | none => [.badSlippage value]
  | some bps => if bps ≤ 10000 then [] else [.slippageTooHigh bps]

def chainFaults (value : String) : List ConfigError :=
  if value ∈ Chain.ids.map Prod.fst then [] else [.badChain value]

/-- The faults of an environment: first those of the entry point, then those of the revision, of
the slippage and of the chain. -/
def faults (env : Environment) : List ConfigError :=
  (env.text? .entryPoint).elim [.missingEntryPoint]
      (fun value => (Address.faults value).map .badEntryPoint) ++
    ((env.text? .revision).elim [] revisionFaults ++
      ((env.text? .slippage).elim [] slippageFaults ++
        chainFaults ((env.text? .chain).getD standardChain)))

theorem reports_readRevision (value : String) :
    Reports (readRevision value) (revisionFaults value) := by
  unfold readRevision revisionFaults
  cases Revision.parse value with
  | ok revision => exact Reports.ok revision
  | error _ => exact Reports.error _

theorem reports_parseSlippage (value : String) :
    Reports (parseSlippage value) (slippageFaults value) := by
  unfold parseSlippage slippageFaults
  cases Digits.readWord? (Text.trim value.toList) with
  | none => exact Reports.error _
  | some bps =>
    by_cases hbps : bps ≤ 10000
    · simp only [hbps, if_true]
      exact Reports.ok bps
    · simp only [hbps, if_false]
      exact Reports.error _

theorem reports_readChain (value : String) : Reports (readChain value) (chainFaults value) := by
  unfold readChain chainFaults
  cases hid : Chain.idOf value with
  | ok id =>
    rw [if_pos (Chain.exists_idOf_iff.mp ⟨id, hid⟩)]
    exact Reports.ok id
  | error _ =>
    have hnone : value ∉ Chain.ids.map Prod.fst := by
      rw [← Chain.exists_idOf_iff, hid]
      exact fun ⟨_, h⟩ => nomatch h
    rw [if_neg hnone]
    exact Reports.error _

theorem reports_ofEnvironment (env : Environment) : Reports (ofEnvironment env) (faults env) := by
  rw [ofEnvironment_eq]
  apply Reports.bind
  · exact (Reports.error _).elim fun value => (Address.reports_parse value).mapError _
  intro entryPoint _
  apply Reports.bind ((Reports.ok _).elim reports_readRevision)
  intro revision _
  apply Reports.bind ((Reports.ok _).elim reports_parseSlippage)
  intro slippageBps _
  exact (reports_readChain _).bind_pure _

/-- How an environment is read. -/
structure ReadsInOrder (env : Environment) : Prop where
  refused : ∀ error, ofEnvironment env = .error error ↔ (faults env).head? = some error
  described : ∀ config, ofEnvironment env = .ok config ↔ Describes env config
  compiler : ∀ config, ofEnvironment env = .ok config →
    ∃ compiler, Compiler.ofConfig config = .ok compiler ∧
      compiler.slippageBps = config.slippageBps ∧
      compiler.registry.entryPoint = config.entryPoint ∧
      compiler.registry.chainId = some config.chainId

theorem readsInOrder (env : Environment) : ReadsInOrder env := by
  constructor
  case refused => exact reports_ofEnvironment env
  case described => exact fun _ => ofEnvironment_eq_ok_iff
  case compiler => exact fun config hread => (ofEnvironment_eq_ok_iff.mp hread).exists_ofConfig

end Config

namespace Arguments

variable {arguments : Arguments} {env : Environment} {config : Config}

/-- What the arguments say about a variable of the configuration. -/
def exported? (arguments : Arguments) : Variable → Option String
  | .entryPoint => some arguments.entryPoint
  | .revision => some arguments.revision.name
  | .slippage => some (Amount.text arguments.slippageBps.toNat)
  | .chain => some arguments.chain
  | .file => none
  | .recipient => none

/-- Every variable of the configuration is exported and no other. -/
theorem isSome_exported?_iff {which : Variable} :
    (arguments.exported? which).isSome = true ↔ which ∈ Config.sources := by
  cases which <;> simp [exported?, Config.sources]

theorem setting?_exportTo (arguments : Arguments) (env : Environment) (which : Variable) :
    (arguments.exportTo env).setting? which =
      ((arguments.exported? which).map Setting.text).or (env.setting? which) := by
  cases which <;> rfl

theorem text?_exportTo {which : Variable} {value : String}
    (h : arguments.exported? which = some value) :
    (arguments.exportTo env).text? which = some value := by
  unfold Environment.text?
  rw [setting?_exportTo, h]
  rfl

/-- The faults of arguments. No revision among them is bad. -/
def faults (arguments : Arguments) : List ConfigError :=
  (Address.faults arguments.entryPoint).map .badEntryPoint ++
    ((if arguments.slippageBps ≤ 10000 then [] else [.slippageTooHigh arguments.slippageBps]) ++
      if arguments.chain ∈ ["ethereum", "base", "unichain", "arbitrum", "polygon"] then []
      else [.badChain arguments.chain])

theorem readWord?_exported (arguments : Arguments) :
    Digits.readWord? (Text.trim (Amount.text arguments.slippageBps.toNat).toList) =
      some arguments.slippageBps := by
  unfold Amount.text
  rw [String.toList_ofList, Digits.readWord?_trim_ofNat]

theorem faults_exportTo (arguments : Arguments) (env : Environment) :
    Config.faults (arguments.exportTo env) = arguments.faults := by
  unfold Config.faults
  rw [text?_exportTo rfl, text?_exportTo rfl, text?_exportTo rfl, text?_exportTo rfl]
  simp only [Option.elim_some, Option.getD_some, Config.revisionFaults, Revision.parse_name,
    Config.slippageFaults, readWord?_exported, List.nil_append]
  rfl

theorem describes_exportTo_iff : Config.Describes (arguments.exportTo env) config ↔
    Address.parse arguments.entryPoint = .ok config.entryPoint ∧
      config.revision = arguments.revision ∧ config.slippageBps = arguments.slippageBps ∧
      arguments.slippageBps ≤ 10000 ∧ (arguments.chain, config.chainId) ∈ Chain.ids := by
  constructor
  · rintro ⟨⟨value, hvalue, hparse⟩, hrevision, hslippage, hchain⟩
    rw [text?_exportTo rfl, Option.some.injEq] at hvalue
    rw [text?_exportTo rfl, Option.elim_some, Revision.parse_name, Except.ok.injEq] at hrevision
    rw [text?_exportTo rfl, Option.elim_some, Config.SpellsSlippage, readWord?_exported,
      Option.some.injEq] at hslippage
    rw [text?_exportTo rfl, Option.getD_some] at hchain
    obtain ⟨hsame, hrange⟩ := hslippage
    exact ⟨hvalue ▸ hparse, hrevision.symm, hsame.symm, hsame ▸ hrange, hchain⟩
  · rintro ⟨hparse, hrevision, hslippage, hrange, hchain⟩
    constructor
    case entryPoint => exact ⟨_, text?_exportTo rfl, hparse⟩
    case revision =>
      rw [text?_exportTo rfl, Option.elim_some, Revision.parse_name, hrevision]
    case slippage =>
      rw [text?_exportTo rfl, Option.elim_some, hslippage]
      exact ⟨readWord?_exported arguments, hrange⟩
    case chain => rwa [text?_exportTo rfl, Option.getD_some]

/-- How arguments are taken for a configuration when they are put into an environment. -/
structure Configures (arguments : Arguments) (env : Environment) : Prop where
  accepted : (∃ config, Config.ofEnvironment (arguments.exportTo env) = .ok config) ↔
    (∃ entryPoint, Address.parse arguments.entryPoint = .ok entryPoint) ∧
      arguments.slippageBps ≤ 10000 ∧
      arguments.chain ∈ ["ethereum", "base", "unichain", "arbitrum", "polygon"]
  config : ∀ config, Config.ofEnvironment (arguments.exportTo env) = .ok config →
    Address.parse arguments.entryPoint = .ok config.entryPoint ∧
      config.revision = arguments.revision ∧ config.slippageBps = arguments.slippageBps ∧
      (arguments.chain, config.chainId) ∈ [("ethereum", 1), ("base", 8453), ("unichain", 130),
        ("arbitrum", 42161), ("polygon", 137)]
  refused : ∀ error, Config.ofEnvironment (arguments.exportTo env) = .error error ↔
    arguments.faults.head? = some error
  /-- What was set before does not show through. -/
  hidden : ∀ before, Config.ofEnvironment (arguments.exportTo before) =
    Config.ofEnvironment (arguments.exportTo env)
  kept : ∀ which ∉ Config.sources,
    (arguments.exportTo env).setting? which = env.setting? which

theorem configures (arguments : Arguments) (env : Environment) : arguments.Configures env := by
  have hreports := Config.reports_ofEnvironment (arguments.exportTo env)
  rw [faults_exportTo] at hreports
  constructor
  case accepted =>
    rw [hreports.exists_ok_iff]
    unfold faults
    simp only [List.append_eq_nil_iff, List.map_eq_nil_iff, Address.faults_eq_nil_iff,
      ite_eq_left_iff, reduceCtorEq, imp_false, not_not]
    rfl
  case config =>
    intro config hread
    obtain ⟨hparse, hrevision, hslippage, _, hchain⟩ :=
      describes_exportTo_iff.mp (Config.ofEnvironment_eq_ok_iff.mp hread)
    exact ⟨hparse, hrevision, hslippage, hchain⟩
  case refused => exact hreports
  case hidden =>
    intro before
    apply Config.ofEnvironment_congr
    intro which hwhich
    obtain ⟨value, hvalue⟩ := Option.isSome_iff_exists.mp (isSome_exported?_iff.mpr hwhich)
    rw [text?_exportTo hvalue, text?_exportTo hvalue]
  case kept =>
    intro which hwhich
    have hnone : arguments.exported? which = none := by
      rwa [← Option.not_isSome_iff_eq_none, isSome_exported?_iff]
    rw [setting?_exportTo, hnone]
    rfl

/-- Arguments survive the way through an environment, and what is read from any environment has a
compiler with the same settings. -/
theorem configures_exportTo :
    (∀ (arguments : Arguments) (env : Environment), arguments.Configures env) ∧
      ∀ env : Environment, Config.ReadsInOrder env :=
  ⟨configures, Config.readsInOrder⟩

/-- What is no value of its variable is hidden, and of two bad arguments the slippage comes first. -/
example :
    let before := (Environment.empty.set .revision (.text "v3")).set .entryPoint (.bytes [0xFF])
    let bad : Arguments :=
      ⟨.text "route.json", "", .v1, (Sample.address 0xEE).text ++ " ", 10001, "Base"⟩
    let good : Arguments := { bad with slippageBps := 100, chain := "base" }
    Config.ofEnvironment before = .error .missingEntryPoint ∧
      Config.ofEnvironment (bad.exportTo before) = .error (.slippageTooHigh 10001) ∧
      Config.ofEnvironment (good.exportTo before) = .ok ⟨Sample.address 0xEE, .v1, 100, 8453⟩ := by
  decide +kernel

end Arguments

end SwapCalldata
