import SwapCalldata.Proofs.Configuration

/-!
Variables as the fallback of arguments. Arguments that name a file and a recipient and nothing else
take the rest from the environment. Where a configuration is read from that environment they lead
to the same one, except that a slippage with blank characters around it, which the configuration
takes, is refused as an argument.
-/
namespace SwapCalldata

open Outcome (Reports)

namespace Digits

theorem not_isBlank_of_read? {digits : List Char} {n : Nat} (h : read? digits = some n) :
    ∀ c ∈ digits, Text.isBlank c = false := by
  unfold read? at h
  split at h
  · cases h
  next hdigits =>
    simp only [Bool.or_eq_true, Bool.not_eq_true', not_or, Bool.not_eq_false,
      List.all_eq_true] at hdigits
    exact fun c hc => Text.not_isBlank_of_isDigit (hdigits.2 c hc)

/-- A word that is read without trimming has no blank character in it. -/
theorem trim_of_readWord? {text : List Char} {word : UInt64} (h : readWord? text = some word) :
    Text.trim text = text := by
  apply Text.trim_of_not_blank
  unfold readWord? at h
  obtain ⟨n, hread, -⟩ := Option.bind_eq_some_iff.mp h
  split at hread
  · exact List.forall_mem_cons.mpr ⟨by decide, not_isBlank_of_read? hread⟩
  · exact not_isBlank_of_read? hread

end Digits

namespace Variable

theorem ofOption?_option (which : Variable) : ofOption? which.option = some which := by
  cases which <;> decide

theorem option_chars (which : Variable) : ∀ c ∈ which.option.toList, (c != '=') = true := by
  have hall : which.option.toList.all (· != '=') = true := by cases which <;> decide
  exact List.all_eq_true.mp hall

theorem option_ne_nil (which : Variable) : which.option.toList ≠ [] := by
  cases which <;> decide

theorem takeWhile_option (which : Variable) (rest : List Char) :
    (which.option.toList ++ rest).takeWhile (· != '=') =
      which.option.toList ++ rest.takeWhile (· != '=') :=
  List.takeWhile_append_of_pos which.option_chars

theorem dropWhile_option (which : Variable) (rest : List Char) :
    (which.option.toList ++ rest).dropWhile (· != '=') = rest.dropWhile (· != '=') :=
  List.dropWhile_append_of_pos which.option_chars

end Variable

theorem Environment.setting?_set (env : Environment) (which other : Variable) (value : Setting) :
    (env.set which value).setting? other =
      if other = which then some value else env.setting? other := rfl

namespace Arguments

variable {given : List (Variable × String)} {words rest : List String} {env : Environment}

/-- The value is not mistaken for an option where it stands alone. -/
def StandsAlone (value : String) : Prop := ∀ c rest, value.toList ≠ '-' :: c :: rest

theorem StandsAlone.of_head?_ne {value : String} (h : value.toList.head? ≠ some '-') :
    StandsAlone value := by
  intro c rest hvalue
  exact h (by rw [hvalue, List.head?_cons])

/-- How options with their values are spelled, in the order in which they are given. -/
inductive Spells : List (Variable × String) → List String → Prop
  | nil : Spells [] []
  | closed : Spells [] ["--"]
  | apart {which : Variable} {value : String} {given : List (Variable × String)}
      {words : List String} : StandsAlone value → Spells given words →
    Spells ((which, value) :: given) (("--" ++ which.option) :: value :: words)
  | joined {which : Variable} {value : String} {given : List (Variable × String)}
      {words : List String} : Spells given words →
    Spells ((which, value) :: given) (("--" ++ which.option ++ "=" ++ value) :: words)

namespace Scan

variable {scan settled : Scan} {which : Variable} {value : String}

/-- Accepts options with their values, one after the other. -/
def acceptAll (scan : Scan) (given : List (Variable × String)) : Except ArgumentStop Scan :=
  given.foldlM (fun scan entry => scan.accept entry.1 (.text entry.2)) scan

theorem long_option (scan : Scan) (which : Variable) : scan.long which.option.toList =
    scan.settle >>= fun settled => pure { settled with pending := some (which, none) } := by
  have htake := which.takeWhile_option []
  have hdrop := which.dropWhile_option []
  simp only [List.append_nil, List.takeWhile_nil, List.dropWhile_nil] at htake hdrop
  simp only [long, htake, hdrop, String.ofList_toList, Variable.ofOption?_option]

theorem long_option_value (scan : Scan) (which : Variable) (value : String) :
    scan.long (which.option.toList ++ '=' :: value.toList) =
      scan.settle >>= fun settled => settled.accept which (.text value) := by
  have htake : ('=' :: value.toList).takeWhile (· != '=') = [] :=
    List.takeWhile_cons_of_neg (by decide)
  have hdrop : ('=' :: value.toList).dropWhile (· != '=') = '=' :: value.toList :=
    List.dropWhile_cons_of_neg (by decide)
  simp only [long, Variable.takeWhile_option, Variable.dropWhile_option, htake, hdrop,
    List.append_nil, String.ofList_toList, Variable.ofOption?_option]

theorem run_long (scan : Scan) {argument : String} {name : List Char} (hname : name ≠ [])
    (h : argument.toList = '-' :: '-' :: name) (rest : List String) :
    scan.run (argument :: rest) = scan.long name >>= fun next => next.run rest := by
  cases name with
  | nil => exact absurd rfl hname
  | cons c name => simp only [run, h]

theorem run_option (scan : Scan) (which : Variable) (rest : List String) :
    scan.run (("--" ++ which.option) :: rest) = scan.settle >>= fun settled =>
      { settled with pending := some (which, none) }.run rest := by
  have htext : ("--" ++ which.option).toList = '-' :: '-' :: which.option.toList := by
    rw [String.toList_append]
    rfl
  rw [run_long scan which.option_ne_nil htext, long_option, bind_assoc]
  rfl

theorem run_option_value (scan : Scan) (which : Variable) (value : String) (rest : List String) :
    scan.run (("--" ++ which.option ++ "=" ++ value) :: rest) = scan.settle >>= fun settled =>
      settled.accept which (.text value) >>= fun next => next.run rest := by
  have htext : ("--" ++ which.option ++ "=" ++ value).toList =
      '-' :: '-' :: (which.option.toList ++ '=' :: value.toList) := by
    simp only [String.toList_append, List.append_assoc]
    rfl
  have hname := List.append_ne_nil_of_left_ne_nil which.option_ne_nil ('=' :: value.toList)
  rw [run_long scan hname htext, long_option_value, bind_assoc]

theorem run_plain (scan : Scan) (h : StandsAlone value) (rest : List String) :
    scan.run (value :: rest) = scan.plain value >>= fun next => next.run rest := by
  rw [run]
  split
  case h_6 => rfl
  all_goals exact absurd (by assumption) (h _ _)

theorem settle_of_accept {next : Scan} {setting : Setting}
    (h : scan.accept which setting = .ok next) : next.settle = .ok next := by
  unfold accept at h
  split at h
  · cases h
  · obtain ⟨_, _, rfl⟩ := Outcome.map_eq_ok_iff.mp h
    rfl

/-- Options with their values are accepted in the order in which they are given. -/
theorem run_of_spells (h : Spells given words) (scan : Scan) :
    scan.run words = scan.settle >>= fun settled => settled.acceptAll given := by
  induction h generalizing scan with
  | nil => exact (bind_pure _).symm
  | closed => exact (bind_pure _).symm
  | @apart which value given words halone _ ih =>
    rw [run_option]
    congr 1
    funext settled
    -- The value waits for the next option, and then it is accepted as if it had been joined.
    have hplain : { settled with pending := some (which, none) }.plain value =
        .ok { settled with pending := some (which, some value) } := rfl
    rw [run_plain _ halone, hplain, Outcome.ok_bind, ih]
    rfl
  | @joined which value given words _ ih =>
    rw [run_option_value]
    congr 1
    funext settled
    rw [acceptAll, List.foldlM_cons]
    cases haccept : settled.accept which (.text value) with
    | error stop => rfl
    | ok next => rw [Outcome.ok_bind, Outcome.ok_bind, ih, settle_of_accept haccept]; rfl

/-- What the accepted options say, as if they were variables. -/
def settings (scan : Scan) : Environment := ⟨fun which => scan.accepted.lookup which⟩

/-- Why a value is not accepted for a variable. -/
def valueFaults (which : Variable) (setting : Setting) : List ArgumentStop :=
  match check which setting with
  | .ok _ => []
  | .error stop => [stop]

/-- Why a variable is not taken for an option. The variable of an option that is given is not looked
at. -/
def fillFaults (env : Environment) (scan : Scan) (which : Variable) : List ArgumentStop :=
  if (scan.settings.setting? which).isSome then []
  else (env.setting? which).elim [] (valueFaults which)

theorem reports_check (which : Variable) (setting : Setting) :
    Reports (check which setting) (valueFaults which setting) := by
  unfold valueFaults
  cases check which setting with
  | ok _ => exact Reports.ok _
  | error stop => exact Reports.error stop

theorem reports_fill (env : Environment) (scan : Scan) (which : Variable) :
    Reports (fill env scan which) (fillFaults env scan which) := by
  unfold fill fillFaults
  by_cases hgiven : (scan.accepted.lookup which).isSome
  · simp only [settings, hgiven, if_true]
    exact Reports.ok scan
  · simp only [settings, hgiven, Bool.false_eq_true, if_false]
    cases env.setting? which with
    | none => exact Reports.ok scan
    | some setting =>
      simp only [accept, hgiven, Bool.false_eq_true, if_false, Option.elim_some]
      exact (reports_check which setting).bind_pure _

theorem settings_accept {next : Scan} {setting : Setting}
    (h : scan.accept which setting = .ok next) :
    next.settings = scan.settings.set which setting := by
  unfold accept at h
  split at h
  · cases h
  · obtain ⟨_, _, rfl⟩ := Outcome.map_eq_ok_iff.mp h
    unfold settings Environment.set
    congr 1
    funext other
    by_cases hother : other = which
    · subst hother
      rw [List.lookup_cons_self, if_pos rfl]
    · rw [List.lookup_cons, beq_eq_false_iff_ne.mpr hother, if_neg hother]

/-- Filling takes the variable of an option that is not given, and nothing else. -/
theorem setting?_fill {filled : Scan} (h : fill env scan which = .ok filled) (other : Variable) :
    filled.settings.setting? other = (scan.settings.setting? other).or
      (if other = which then env.setting? other else none) := by
  have hsame : scan.settings.setting? which = scan.accepted.lookup which := rfl
  unfold fill at h
  rw [← hsame] at h
  split at h
  next hgiven =>
    obtain rfl := Except.ok.inj h
    split_ifs with hother
    · rw [hother, Option.or_of_isSome hgiven]
    · rw [Option.or_none]
  next hgiven =>
    have hnone := Option.not_isSome_iff_eq_none.mp hgiven
    split at h
    next setting hsetting =>
      rw [settings_accept h, Environment.setting?_set]
      split_ifs with hother
      · rw [hother, hnone, hsetting, Option.none_or]
      · rw [Option.or_none]
    next hsetting =>
      obtain rfl := Except.ok.inj h
      split_ifs with hother
      · rw [hother, hnone, hsetting, Option.none_or]
      · rw [Option.or_none]

theorem setting?_foldlM_fill {vars : List Variable} {filled : Scan}
    (h : vars.foldlM (fill env) scan = .ok filled) (other : Variable) :
    filled.settings.setting? other = (scan.settings.setting? other).or
      (if other ∈ vars then env.setting? other else none) := by
  induction vars generalizing scan with
  | nil =>
    obtain rfl := Except.ok.inj h
    simp
  | cons which vars ih =>
    rw [List.foldlM_cons, Outcome.bind_eq_ok_iff] at h
    obtain ⟨next, hnext, hrest⟩ := h
    rw [ih hrest, setting?_fill hnext, Option.or_assoc]
    by_cases hother : other = which
    · subst hother
      by_cases hmem : other ∈ vars <;> simp [hmem]
    · simp [hother]

/-- The variables are looked at in their order, each of them once. -/
theorem reports_foldlM_fill {vars : List Variable} (hnodup : vars.Nodup) (scan : Scan) :
    Reports (vars.foldlM (fill env) scan) (vars.flatMap (fillFaults env scan)) := by
  induction vars generalizing scan with
  | nil => exact Reports.ok scan
  | cons which vars ih =>
    rw [List.nodup_cons] at hnodup
    rw [List.foldlM_cons, List.flatMap_cons]
    apply Reports.bind (reports_fill env scan which)
    intro next hnext
    have hsame : vars.flatMap (fillFaults env next) = vars.flatMap (fillFaults env scan) := by
      apply List.flatMap_congr
      intro other hmem
      have hother : other ≠ which := fun h => hnodup.1 (h ▸ hmem)
      unfold fillFaults
      rw [setting?_fill hnext, if_neg hother, Option.or_none]
    rw [← hsame]
    exact ih hnodup.2 next

end Scan

def readRevision (value : String) : Except ArgumentStop Revision :=
  (Revision.parse value).mapError fun _ => .badValue

def readSlippage (value : String) : Except ArgumentStop UInt64 :=
  match Digits.readWord? value.toList with
  | some bps => .ok bps
  | none => .error .badValue

/-- The arguments that settings give, each setting taken by itself. -/
def ofSettings (env : Environment) : Except ArgumentStop Arguments := do
  let file ← required (env.setting? .file)
  let recipient ← required (env.text? .recipient)
  let entryPoint ← required (env.text? .entryPoint)
  let revision ← (env.text? .revision).elim (.ok Revision.standard) readRevision
  let slippageBps ← (env.text? .slippage).elim (.ok Config.standardSlippage) readSlippage
  return ⟨file, recipient, revision, entryPoint, slippageBps,
    (env.text? .chain).getD Config.standardChain⟩

theorem parse_eq (words : List String) (env : Environment) : parse words env = (do
    let scan ← Scan.start.run words
    let filled ← Variable.all.foldlM (Scan.fill env) scan
    ofSettings filled.settings) := by
  unfold parse
  congr 1
  funext scan
  congr 1
  funext filled
  have htext (which : Variable) : (filled.accepted.lookup which).bind Setting.text? =
      filled.settings.text? which := rfl
  have hfile : filled.accepted.lookup .file = filled.settings.setting? .file := rfl
  simp only [htext, hfile, ofSettings]
  cases filled.settings.text? .slippage with
  | none => cases filled.settings.text? .revision <;> rfl
  | some value =>
    simp only [Option.elim_some, readSlippage]
    cases Digits.readWord? value.toList <;> cases filled.settings.text? .revision <;> rfl

/-- The arguments name a file and a recipient, in either order, and nothing else. -/
def NamesOnly (file recipient : String) (words : List String) : Prop :=
  Spells [(.file, file), (.recipient, recipient)] words ∨
    Spells [(.recipient, recipient), (.file, file)] words

/-- A file and a recipient, as variables. -/
def named (file recipient : String) : Environment :=
  (Environment.empty.set .file (.text file)).set .recipient (.text recipient)

variable {file recipient : String} {config : Config}

/-- Two options with values that pass their checks are both accepted. -/
theorem Scan.run_pair {first second : Variable × String} (h : Spells [first, second] words)
    (hdistinct : second.1 ≠ first.1) (hfirst : check first.1 (.text first.2) = .ok ())
    (hsecond : check second.1 (.text second.2) = .ok ()) :
    Scan.start.run words =
      .ok ⟨[(second.1, .text second.2), (first.1, .text first.2)], none⟩ := by
  have haccept : Scan.start.accept first.1 (.text first.2) =
      .ok ⟨[(first.1, .text first.2)], none⟩ := by
    unfold accept
    rw [hfirst]
    rfl
  have hlookup : [(first.1, Setting.text first.2)].lookup second.1 = none := by
    rw [List.lookup_cons, beq_eq_false_iff_ne.mpr hdistinct, List.lookup_nil]
  rw [run_of_spells h]
  simp only [acceptAll, List.foldlM_cons, settle, start] at haccept ⊢
  rw [Outcome.ok_bind, haccept, Outcome.ok_bind, accept, hlookup, hsecond]
  rfl

theorem exists_run_of_namesOnly (h : NamesOnly file recipient words) (hfile : file ≠ "") :
    ∃ scan, Scan.start.run words = .ok scan ∧
      ∀ which, scan.settings.setting? which = (named file recipient).setting? which := by
  have hcheck : check .file (.text file) = .ok () := if_neg (by simpa using hfile)
  rcases h with h | h
  · refine ⟨_, Scan.run_pair h (by simp) hcheck rfl, ?_⟩
    intro which
    cases which <;> rfl
  · refine ⟨_, Scan.run_pair h (by simp) rfl hcheck, ?_⟩
    intro which
    cases which <;> rfl

theorem run_of_namesOnly_empty (h : NamesOnly "" recipient words) :
    Scan.start.run words = .error .missingValue := by
  rcases h with h | h
  · rw [Scan.run_of_spells h]
    rfl
  · rw [Scan.run_of_spells h]
    rfl

/-- No blank character stands around the slippage, if there is one. -/
def Unpadded (env : Environment) : Prop :=
  ∀ value, env.text? .slippage = some value → Text.trim value.toList = value.toList

/-- The variables of the configuration are texts where they are set. -/
def Textual (env : Environment) : Prop :=
  ∀ which ∈ Config.sources, ∀ bytes, env.setting? which ≠ some (.bytes bytes)

theorem Textual.setting?_eq (h : Textual env) {which : Variable} (hwhich : which ∈ Config.sources) :
    env.setting? which = (env.text? which).map .text := by
  have hbytes := h which hwhich
  unfold Environment.text?
  match hsetting : env.setting? which with
  | none => rfl
  | some (.text value) => rfl
  | some (.bytes bytes) => exact absurd hsetting (hbytes bytes)

/-- Why the environment is not taken for the options that are left to it. -/
def sourceFaults (env : Environment) : List ArgumentStop :=
  [.revision, .entryPoint, .slippage, .chain].flatMap fun which =>
    (env.setting? which).elim [] (Scan.valueFaults which)

theorem flatMap_fillFaults {scan : Scan}
    (h : ∀ which, scan.settings.setting? which = (named file recipient).setting? which) :
    Variable.all.flatMap (Scan.fillFaults env scan) = sourceFaults env := by
  simp [Variable.all, sourceFaults, Scan.fillFaults, h, named, Environment.set, Environment.empty]

theorem Scan.valueFaults_of_check {which : Variable} {setting : Setting}
    (h : check which setting = .ok ()) : valueFaults which setting = [] := by
  unfold valueFaults
  rw [h]

theorem check_revision {value : String} {revision : Revision}
    (h : Revision.parse value = .ok revision) : check .revision (.text value) = .ok () := by
  simp only [check, h]
  rfl

theorem check_slippage (value : String) : check .slippage (.text value) =
    if (Digits.readWord? value.toList).isSome then .ok () else .error .badValue := rfl

/-- Of what a configuration is read from, an option refuses only a slippage with blank characters
around it. -/
theorem sourceFaults_of_describes (hconfig : Config.Describes env config) (htext : Textual env) :
    sourceFaults env = (env.text? .slippage).elim [] fun value =>
      if Text.trim value.toList = value.toList then [] else [.badValue] := by
  have hrevision : (env.setting? .revision).elim [] (Scan.valueFaults .revision) = [] := by
    have hread := hconfig.revision
    rw [htext.setting?_eq (by decide)]
    cases hvalue : env.text? .revision with
    | none => rfl
    | some value =>
      rw [hvalue] at hread
      exact Scan.valueFaults_of_check (check_revision hread)
  have hentry : (env.setting? .entryPoint).elim [] (Scan.valueFaults .entryPoint) = [] := by
    rw [htext.setting?_eq (by decide)]
    cases env.text? .entryPoint <;> rfl
  have hchain : (env.setting? .chain).elim [] (Scan.valueFaults .chain) = [] := by
    rw [htext.setting?_eq (by decide)]
    cases env.text? .chain <;> rfl
  have hslippage := hconfig.slippage
  simp only [sourceFaults, List.flatMap_cons, List.flatMap_nil, hrevision, hentry, hchain,
    List.nil_append, List.append_nil]
  rw [htext.setting?_eq (by decide)]
  cases hvalue : env.text? .slippage with
  | none => rfl
  | some value =>
    rw [hvalue] at hslippage
    obtain ⟨hread, -⟩ := hslippage
    simp only [Option.map_some, Option.elim_some, Scan.valueFaults, check_slippage]
    by_cases htrim : Text.trim value.toList = value.toList
    · rw [htrim] at hread
      simp [htrim, hread]
    · have hnone : Digits.readWord? value.toList = none := by
        rw [Option.eq_none_iff_forall_ne_some]
        exact fun word hword => htrim (Digits.trim_of_readWord? hword)
      simp [htrim, hnone]

theorem sourceFaults_eq_nil_iff (hconfig : Config.Describes env config) (htext : Textual env) :
    sourceFaults env = [] ↔ Unpadded env := by
  rw [sourceFaults_of_describes hconfig htext]
  unfold Unpadded
  cases env.text? .slippage <;> simp

/-- The settings of an environment without padding lead to the arguments of its configuration. -/
theorem exists_ofSettings (hconfig : Config.Describes env config) (hpadding : Unpadded env)
    {settings : Environment} {file : Setting}
    (hfile : settings.setting? .file = some file)
    (hrecipient : settings.text? .recipient = some recipient)
    (hsources : ∀ which ∈ Config.sources, settings.text? which = env.text? which) :
    ∃ arguments, ofSettings settings = .ok arguments ∧ arguments.file = file ∧
      arguments.recipient = recipient ∧ Config.Describes (arguments.exportTo env) config := by
  obtain ⟨entryPoint, hentry, hparse⟩ := hconfig.entryPoint
  let arguments : Arguments := ⟨file, recipient, config.revision, entryPoint, config.slippageBps,
    (env.text? .chain).getD Config.standardChain⟩
  have hrevision : (env.text? .revision).elim (.ok Revision.standard) readRevision =
      .ok config.revision := by
    have hread := hconfig.revision
    cases hvalue : env.text? .revision with
    | none =>
      rw [hvalue] at hread
      exact congrArg Except.ok hread.symm
    | some value =>
      rw [hvalue] at hread
      exact Outcome.mapError_eq_ok_iff.mpr hread
  have hslippage : (env.text? .slippage).elim (.ok Config.standardSlippage) readSlippage =
      .ok config.slippageBps := by
    have hread := hconfig.slippage
    cases hvalue : env.text? .slippage with
    | none =>
      rw [hvalue] at hread
      exact congrArg Except.ok hread.symm
    | some value =>
      rw [hvalue] at hread
      have hword := hread.1
      rw [hpadding value hvalue] at hword
      simp only [Option.elim_some, readSlippage, hword]
  refine ⟨arguments, ?_, rfl, rfl, ?_⟩
  · unfold ofSettings
    rw [hsources .entryPoint (by decide), hsources .revision (by decide),
      hsources .slippage (by decide), hsources .chain (by decide), hfile, hrecipient, hentry,
      hrevision, hslippage]
    rfl
  · exact describes_exportTo_iff.mpr
      ⟨hparse, rfl, rfl, hconfig.slippage_le, hconfig.chain⟩

theorem exists_parse_of_unpadded (hwords : NamesOnly file recipient words) (hfile : file ≠ "")
    (hconfig : Config.Describes env config) (htext : Textual env) (hpadding : Unpadded env) :
    ∃ arguments, parse words env = .ok arguments ∧ arguments.file = .text file ∧
      arguments.recipient = recipient ∧ Config.Describes (arguments.exportTo env) config := by
  obtain ⟨scan, hrun, hsettings⟩ := exists_run_of_namesOnly hwords hfile
  have hreports : Reports (Variable.all.foldlM (Scan.fill env) scan) _ :=
    Scan.reports_foldlM_fill (by decide) scan
  rw [flatMap_fillFaults hsettings] at hreports
  obtain ⟨filled, hfilled⟩ :=
    hreports.exists_ok_iff.mpr ((sourceFaults_eq_nil_iff hconfig htext).mpr hpadding)
  have hvalues (which : Variable) : filled.settings.setting? which =
      ((named file recipient).setting? which).or (env.setting? which) := by
    rw [Scan.setting?_foldlM_fill hfilled, hsettings, if_pos (by cases which <;> decide)]
  have hrecipient : filled.settings.text? .recipient = some recipient := by
    rw [Environment.text?, hvalues]
    rfl
  have hsources : ∀ which ∈ Config.sources, filled.settings.text? which = env.text? which := by
    intro which hwhich
    have hnone : (named file recipient).setting? which = none := by
      cases which <;> first | rfl | exact absurd hwhich (by decide)
    rw [Environment.text?, hvalues, hnone, Option.none_or]
    rfl
  rw [parse_eq, hrun, Outcome.ok_bind, hfilled, Outcome.ok_bind]
  exact exists_ofSettings hconfig hpadding (hvalues .file) hrecipient hsources

theorem parse_of_padded (hwords : NamesOnly file recipient words) (hfile : file ≠ "")
    (hconfig : Config.Describes env config) (htext : Textual env) (hpadding : ¬ Unpadded env) :
    parse words env = .error .badValue := by
  obtain ⟨scan, hrun, hsettings⟩ := exists_run_of_namesOnly hwords hfile
  have hreports : Reports (Variable.all.foldlM (Scan.fill env) scan) _ :=
    Scan.reports_foldlM_fill (by decide) scan
  rw [flatMap_fillFaults hsettings, sourceFaults_of_describes hconfig htext] at hreports
  unfold Unpadded at hpadding
  push Not at hpadding
  obtain ⟨value, hvalue, htrim⟩ := hpadding
  have hfill : Variable.all.foldlM (Scan.fill env) scan = .error .badValue :=
    (hreports .badValue).mpr (by simp [hvalue, htrim])
  rw [parse_eq, hrun, Outcome.ok_bind, hfill]
  rfl

/-- How arguments that name a file and a recipient only are taken where a configuration is read from
the environment. -/
structure FallsBack (words : List String) (env : Environment) (file recipient : String)
    (config : Config) : Prop where
  accepted : (∃ arguments, parse words env = .ok arguments) ↔ file ≠ "" ∧ Unpadded env
  same : ∀ arguments, parse words env = .ok arguments →
    arguments.file = .text file ∧ arguments.recipient = recipient ∧
      Config.ofEnvironment (arguments.exportTo env) = .ok config
  refused : file ≠ "" → ¬ Unpadded env → parse words env = .error .badValue

/-- The options that are not given lead to the configuration of the environment or, where its
slippage has blank characters around it, to a refusal. -/
theorem parse_fallback {words : List String} {env : Environment} {file recipient : String}
    {config : Config} (hwords : NamesOnly file recipient words) (htext : Textual env)
    (hread : Config.ofEnvironment env = .ok config) :
    FallsBack words env file recipient config := by
  have hconfig := Config.ofEnvironment_eq_ok_iff.mp hread
  have hfile (arguments : Arguments) (hparse : parse words env = .ok arguments) : file ≠ "" := by
    rintro rfl
    rw [parse_eq, run_of_namesOnly_empty hwords] at hparse
    cases hparse
  have hpadding (arguments : Arguments) (hparse : parse words env = .ok arguments) :
      Unpadded env := by
    by_contra hpadded
    rw [parse_of_padded hwords (hfile arguments hparse) hconfig htext hpadded] at hparse
    cases hparse
  constructor
  case accepted =>
    constructor
    · rintro ⟨arguments, hparse⟩
      exact ⟨hfile arguments hparse, hpadding arguments hparse⟩
    · rintro ⟨hnamed, hunpadded⟩
      obtain ⟨arguments, hparse, -⟩ :=
        exists_parse_of_unpadded hwords hnamed hconfig htext hunpadded
      exact ⟨arguments, hparse⟩
  case same =>
    intro arguments hparse
    obtain ⟨read, hread, hsame⟩ := exists_parse_of_unpadded hwords (hfile arguments hparse) hconfig
      htext (hpadding arguments hparse)
    obtain rfl : arguments = read := Except.ok.inj (hparse.symm.trans hread)
    rwa [Config.ofEnvironment_eq_ok_iff]
  case refused => exact fun hnamed hpadded => parse_of_padded hwords hnamed hconfig htext hpadded

end Arguments

namespace Sample

/-- A slippage beside a revision that is written in capitals between blank characters. -/
def environment (slippage : String) : Environment :=
  ((Environment.empty.set .entryPoint (.text (address 0xEE).text)).set .revision
    (.text " V1 ")).set .slippage (.text slippage)

def words : List String := ["--recipient", (address 0xAA).text, "--route", "route.json"]

theorem namesOnly_words : Arguments.NamesOnly "route.json" (address 0xAA).text words :=
  .inr (.apart (.of_head?_ne (by decide +kernel))
    (.apart (.of_head?_ne (by decide +kernel)) .nil))

theorem textual_environment (slippage : String) : Arguments.Textual (environment slippage) := by
  intro which _ bytes h
  cases which <;> cases h

theorem ofEnvironment_environment :
    Config.ofEnvironment (environment "+50") = .ok ⟨address 0xEE, .v1, 50, 1⟩ ∧
      Config.ofEnvironment (environment " 50 ") = .ok ⟨address 0xEE, .v1, 50, 1⟩ := by
  decide +kernel

end Sample

namespace Arguments

/-- A plus sign in front of the slippage is taken by both readers, blank characters around it are
taken by one. -/
theorem parse_fallback_environment :
    (∃ arguments, parse Sample.words (Sample.environment "+50") = .ok arguments ∧
      Config.ofEnvironment (arguments.exportTo (Sample.environment "+50")) =
        .ok ⟨Sample.address 0xEE, .v1, 50, 1⟩) ∧
      FallsBack Sample.words (Sample.environment " 50 ") "route.json" (Sample.address 0xAA).text
        ⟨Sample.address 0xEE, .v1, 50, 1⟩ := by
  obtain ⟨hsigned, hpadded⟩ := Sample.ofEnvironment_environment
  have hfallback := parse_fallback Sample.namesOnly_words (Sample.textual_environment "+50") hsigned
  have hunpadded : Unpadded (Sample.environment "+50") := by
    intro value hvalue
    obtain rfl := Option.some.inj hvalue
    decide
  obtain ⟨arguments, hparse⟩ := hfallback.accepted.mpr ⟨by decide, hunpadded⟩
  exact ⟨⟨arguments, hparse, (hfallback.same arguments hparse).2.2⟩,
    parse_fallback Sample.namesOnly_words (Sample.textual_environment " 50 ") hpadded⟩

/-- A slippage that the configuration takes, and the option for it does not. -/
theorem parse_padded_environment :
    Config.ofEnvironment (Sample.environment " 50 ") = .ok ⟨Sample.address 0xEE, .v1, 50, 1⟩ ∧
      parse Sample.words (Sample.environment " 50 ") = .error .badValue := by
  decide +kernel

end Arguments

end SwapCalldata
