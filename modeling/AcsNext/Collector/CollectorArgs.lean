import AcsNext.Collector.EnvVar
import AcsNext.Collector.OptionParser

/-! The command line of the collector: which argument vectors are accepted, and what is stored of
them. -/
namespace AcsNext.Collector
open AcsNext.Data

inductive OptionIndex where
  | unknown
  | help
  | collectorConfig
  | collectionMethod
  | grpcServer
deriving DecidableEq, Repr

inductive ValueOption where
  | collectorConfig
  | collectionMethod
  | grpcServer
deriving DecidableEq

inductive CollectionMethod where
  | ebpf
  | coreBpf
deriving DecidableEq, Repr

structure CollectorArgs (J : Type) where
  collectorConfig : Option J
  collectionMethod : Option CollectionMethod
  grpcServer : Bytes
  message : Bytes

def messageText (s : String) : Bytes := s.toUTF8.toList

/-- The names `ebpf` and `core_bpf`, in any case and with any dash; every other one stands for
the second. -/
def parseCollectionMethod (method : Bytes) : CollectionMethod :=
  let cm := (method.map toLower).map fun c => if c = 45 then 95 else c
  if cm = [101, 98, 112, 102] then .ebpf
  else if cm = [99, 111, 114, 101, 95, 98, 112, 102] then .coreBpf
  else .coreBpf

def checkGrpcServer (server : Option Bytes) : ArgStatus × Bytes :=
  match server with
  | none => (.ignore, messageText
      "Missing grpc list. Cannot configure GRPC client. Reverting to stdout.")
  | some server =>
    if server = [] then (.ignore, messageText
      "Missing grpc list. Cannot configure GRPC client. Reverting to stdout.")
    else if server.length > 255 then (.illegal, messageText "GRPC Server addr too long (> 255)")
    else
      match server.idxOf? 58 with
      | none => (.illegal, messageText "Malformed grpc server addr")
      | some marker =>
        if server.take marker = [] then (.illegal, messageText "Missing grpc host")
        else if server.drop (marker + 1) = [] then (.illegal, messageText "Missing grpc port")
        else (.ok, [])

section Checks

-- the reader of JSON, which yields a value or the text of its errors
variable {J : Type} (readJson : Bytes → Except Bytes J)

def checkConfiguration (config : Option Bytes) : ArgStatus × Bytes × Option J :=
  match config with
  | none => (.ignore, messageText "Missing collector config", none)
  | some config =>
    match readJson config with
    | .error errors => (.illegal, messageText
        "A valid JSON configuration is required to start the collector: " ++ errors, none)
    | .ok root => (.ok, [], some root)

def argNone (_ : Option Bytes) (_ : Bool) (s : CollectorArgs J) : ArgStatus × CollectorArgs J :=
  (.none, s)

def checkCollectorConfig (arg : Option Bytes) (msg : Bool) (s : CollectorArgs J) :
    ArgStatus × CollectorArgs J :=
  let (status, message, root) := checkConfiguration readJson arg
  let s := if msg then { s with message := message } else s
  (status, if status = .ok then { s with collectorConfig := root } else s)

def checkCollectionMethod (arg : Option Bytes) (msg : Bool) (s : CollectorArgs J) :
    ArgStatus × CollectorArgs J :=
  match arg with
  | none =>
    (.ok, if msg then
      { s with message := messageText "Missing collection method, using default." } else s)
  | some arg => (.ok, { s with collectionMethod := some (parseCollectionMethod arg) })

def checkGRPCServer (arg : Option Bytes) (msg : Bool) (s : CollectorArgs J) :
    ArgStatus × CollectorArgs J :=
  let (status, message) := checkGrpcServer arg
  let s := if status = .ok then { s with grpcServer := arg.getD [] } else s
  (status, if msg then { s with message := message } else s)

/-- The lines of the options that take a value: `collector-config`, `collection-method` and
`grpc-server`. -/
def ValueOption.descriptor : ValueOption → Descriptor OptionIndex (CollectorArgs J)
  | .collectorConfig => ⟨.collectorConfig, [], [99, 111, 108, 108, 101, 99, 116, 111, 114, 45, 99,
      111, 110, 102, 105, 103], checkCollectorConfig readJson⟩
  | .collectionMethod => ⟨.collectionMethod, [], [99, 111, 108, 108, 101, 99, 116, 105, 111, 110,
      45, 109, 101, 116, 104, 111, 100], checkCollectionMethod⟩
  | .grpcServer => ⟨.grpcServer, [], [103, 114, 112, 99, 45, 115, 101, 114, 118, 101, 114],
      checkGRPCServer⟩

/-- The usage table, without its help texts. The other name is `help`. -/
def usage : List (Descriptor OptionIndex (CollectorArgs J)) :=
  [⟨.unknown, [], [], argNone⟩,
    ⟨.help, [], [104, 101, 108, 112], argNone⟩,
    ValueOption.descriptor readJson .collectorConfig,
    ValueOption.descriptor readJson .collectionMethod,
    ValueOption.descriptor readJson .grpcServer,
    ⟨.unknown, [], [], argNone⟩]

/-- The arguments are gone through twice, first to count the options. The result, the exit code,
and what is stored. -/
def CollectorArgs.parse (usageText : Bytes) (argv : List Bytes) (s : CollectorArgs J) :
    Bool × ℕ × CollectorArgs J :=
  let args := argv.tail
  let counted := workhorse (usage readJson) false args s
  match workhorse (usage readJson) true args counted.2 with
  | (none, s) => (false, 1, s)
  | (some options, s) =>
    if options.any fun option => option.index = .help then
      (false, 0, { s with message := usageText })
    else
      match options.find? fun option => option.index = .unknown with
      | some option =>
        (false, 1, { s with message := messageText "Unknown option: " ++ option.name })
      | none => (true, 0, s)

end Checks

inductive Setting (J : Type) where
  | collectorConfig (root : J)
  | collectionMethod (method : CollectionMethod)
  | grpcServer (server : Bytes)

section Grammar

variable {J : Type} (readJson : Bytes → Except Bytes J)

def ValueOption.status (k : ValueOption) (arg : Option Bytes) : ArgStatus :=
  match k with
  | .collectorConfig => (checkConfiguration readJson arg).1
  | .collectionMethod => .ok
  | .grpcServer => (checkGrpcServer arg).1

def ValueOption.setting (k : ValueOption) (arg : Option Bytes) : Option (Setting J) :=
  match k with
  | .collectorConfig => (checkConfiguration readJson arg).2.2.map .collectorConfig
  | .collectionMethod => arg.map fun arg => .collectionMethod (parseCollectionMethod arg)
  | .grpcServer => if (checkGrpcServer arg).1 = .ok then arg.map .grpcServer else none

def ValueOption.dashed (k : ValueOption) : Bytes := endOfOptions ++ (k.descriptor readJson).longopt

/-- The argument vectors with their settings. What follows the first argument that is no option
is not looked at. -/
inductive Accepted : List Bytes → List (Setting J) → Prop
  | nil : Accepted [] []
  | stop {param : Bytes} (rest : List Bytes) (h : isOption param = false ∨ param = endOfOptions) :
    Accepted (param :: rest) []
  | attached (k : ValueOption) (arg : Bytes) {rest : List Bytes} {settings : List (Setting J)}
    (h : k.status readJson (some arg) ≠ .illegal) (hrest : Accepted rest settings) :
    Accepted ((k.dashed readJson ++ 61 :: arg) :: rest)
      ((k.setting readJson (some arg)).toList ++ settings)
  | detached (k : ValueOption) (arg : Bytes) {rest : List Bytes} {settings : List (Setting J)}
    (h : k.status readJson (some arg) = .ok) (hrest : Accepted rest settings) :
    Accepted (k.dashed readJson :: arg :: rest)
      ((k.setting readJson (some arg)).toList ++ settings)
  | bare (k : ValueOption) {rest : List Bytes} {settings : List (Setting J)}
    (h : rest = [] ∨ k.status readJson rest.head? = .ignore) (hrest : Accepted rest settings) :
    Accepted (k.dashed readJson :: rest) settings

end Grammar

def lastSetting {J V : Type} (value : Setting J → Option V) (settings : List (Setting J)) :
    Option V :=
  settings.reverse.findSome? value

def Setting.root? {J : Type} : Setting J → Option J
  | .collectorConfig root => some root
  | _ => none

def Setting.method? {J : Type} : Setting J → Option CollectionMethod
  | .collectionMethod method => some method
  | _ => none

def Setting.server? {J : Type} : Setting J → Option Bytes
  | .grpcServer server => some server
  | _ => none

/-- The second state has the values of the first one, as far as the settings do not replace
them. -/
structure Stores {J : Type} (s : CollectorArgs J) (settings : List (Setting J))
    (s' : CollectorArgs J) : Prop where
  collectorConfig : s'.collectorConfig = (lastSetting Setting.root? settings).or s.collectorConfig
  collectionMethod :
    s'.collectionMethod = (lastSetting Setting.method? settings).or s.collectionMethod
  grpcServer : s'.grpcServer = (lastSetting Setting.server? settings).getD s.grpcServer

theorem lastSetting_append {J V : Type} (value : Setting J → Option V) (l l' : List (Setting J)) :
    lastSetting value (l ++ l') = (lastSetting value l').or (lastSetting value l) := by
  rw [lastSetting, List.reverse_append, List.findSome?_append]
  rfl

namespace Stores

variable {J : Type} {s s' s'' : CollectorArgs J} {l l' : List (Setting J)}

theorem trans (h : Stores s l s') (h' : Stores s' l' s'') : Stores s (l ++ l') s'' := by
  constructor
  · rw [h'.collectorConfig, h.collectorConfig, lastSetting_append, Option.or_assoc]
  · rw [h'.collectionMethod, h.collectionMethod, lastSetting_append, Option.or_assoc]
  · rw [h'.grpcServer, h.grpcServer, lastSetting_append]
    cases lastSetting Setting.server? l' <;> rfl

/-- Going through the same settings once more changes nothing. -/
theorem again (h : Stores s l s') (h' : Stores s' l s'') : Stores s l s'' := by
  constructor
  · rw [h'.collectorConfig, h.collectorConfig, ← Option.or_assoc, Option.or_self]
  · rw [h'.collectionMethod, h.collectionMethod, ← Option.or_assoc, Option.or_self]
  · rw [h'.grpcServer, h.grpcServer]
    cases lastSetting Setting.server? l <;> rfl

end Stores

section Lines

variable {J : Type} (readJson : Bytes → Except Bytes J)

theorem checkConfiguration_cases (config : Option Bytes) :
    (∃ root, checkConfiguration readJson config = (.ok, [], some root)) ∨
      ∃ status message, checkConfiguration readJson config = (status, message, none) ∧
        (status = .ignore ∨ status = .illegal) := by
  unfold checkConfiguration
  cases config with
  | none => exact Or.inr ⟨_, _, rfl, Or.inl rfl⟩
  | some config =>
    dsimp only
    cases readJson config with
    | error errors => exact Or.inr ⟨_, _, rfl, Or.inr rfl⟩
    | ok root => exact Or.inl ⟨root, rfl⟩

theorem checkCollectorConfig_stores (arg : Option Bytes) (msg : Bool) (s : CollectorArgs J) :
    (checkCollectorConfig readJson arg msg s).1 = ValueOption.collectorConfig.status readJson arg ∧
      Stores s (ValueOption.collectorConfig.setting readJson arg).toList
        (checkCollectorConfig readJson arg msg s).2 := by
  unfold checkCollectorConfig ValueOption.setting ValueOption.status
  dsimp only
  rcases checkConfiguration_cases readJson arg with ⟨root, h⟩ | ⟨status, message, h, hstatus⟩
  · rw [h]
    exact ⟨rfl, by cases msg <;> exact ⟨rfl, rfl, rfl⟩⟩
  · have hok : status ≠ .ok := by rcases hstatus with rfl | rfl <;> simp
    rw [h]
    dsimp only
    rw [if_neg hok]
    exact ⟨rfl, by cases msg <;> exact ⟨rfl, rfl, rfl⟩⟩

theorem checkGRPCServer_stores (arg : Option Bytes) (msg : Bool) (s : CollectorArgs J) :
    (checkGRPCServer arg msg s).1 = ValueOption.grpcServer.status readJson arg ∧
      Stores s (ValueOption.grpcServer.setting readJson arg).toList
        (checkGRPCServer arg msg s).2 := by
  have hmissing : (checkGrpcServer none).1 ≠ .ok := by simp [checkGrpcServer]
  unfold checkGRPCServer ValueOption.setting ValueOption.status
  dsimp only
  refine ⟨rfl, ?_⟩
  by_cases hok : (checkGrpcServer arg).1 = .ok
  · rw [if_pos hok, if_pos hok]
    cases arg with
    | none => exact absurd hok hmissing
    | some arg => cases msg <;> exact ⟨rfl, rfl, rfl⟩
  · rw [if_neg hok, if_neg hok]
    cases msg <;> exact ⟨rfl, rfl, rfl⟩

theorem checkArg_descriptor (k : ValueOption) (arg : Option Bytes) (msg : Bool)
    (s : CollectorArgs J) :
    ∃ s', (k.descriptor readJson).checkArg arg msg s = (k.status readJson arg, s') ∧
      Stores s (k.setting readJson arg).toList s' := by
  cases k with
  | collectorConfig =>
    obtain ⟨hstatus, hstores⟩ := checkCollectorConfig_stores readJson arg msg s
    exact ⟨_, Prod.ext hstatus rfl, hstores⟩
  | collectionMethod =>
    cases arg with
    | none => exact ⟨_, rfl, by cases msg <;> exact ⟨rfl, rfl, rfl⟩⟩
    | some arg => exact ⟨_, rfl, ⟨rfl, rfl, rfl⟩⟩
  | grpcServer =>
    obtain ⟨hstatus, hstores⟩ := checkGRPCServer_stores readJson arg msg s
    exact ⟨_, Prod.ext hstatus rfl, hstores⟩

theorem status_ne_none (k : ValueOption) (arg : Option Bytes) : k.status readJson arg ≠ .none := by
  cases k with
  | collectorConfig =>
    unfold ValueOption.status
    rcases checkConfiguration_cases readJson arg with ⟨root, h⟩ | ⟨status, message, h, rfl | rfl⟩
    · simp [h]
    · simp [h]
    · simp [h]
  | collectionMethod => simp [ValueOption.status]
  | grpcServer =>
    unfold ValueOption.status checkGrpcServer
    cases arg with
    | none => simp
    | some arg =>
      dsimp only
      split_ifs
      · simp
      · simp
      · split
        · simp
        · split_ifs <;> simp

theorem not_mem_longopt (k : ValueOption) : 61 ∉ (k.descriptor readJson).longopt := by
  cases k <;> simp [ValueOption.descriptor]

theorem findDescriptor_value (k : ValueOption) {name : Bytes}
    (h : streq (k.descriptor readJson).longopt name = true) :
    findDescriptor (usage readJson) (fun d => streq d.longopt name) =
      some (k.descriptor readJson) := by
  rcases streq_iff.mp h with rfl | ⟨arg, rfl⟩
  · cases k <;> rfl
  · cases k <;> rfl

theorem findDescriptor_other {name : Bytes}
    (h : ∀ k : ValueOption, streq (k.descriptor readJson).longopt name = false) :
    ∃ d, findDescriptor (usage readJson) (fun d => streq d.longopt name) = some d ∧
      (d.index = .help ∨ d.index = .unknown) ∧ d.checkArg = argNone := by
  have hconfig := h .collectorConfig
  have hmethod := h .collectionMethod
  have hserver := h .grpcServer
  unfold findDescriptor usage
  cases hempty : streq [] name with
  | true =>
    refine ⟨⟨.unknown, [], [], argNone⟩, ?_, Or.inr rfl, rfl⟩
    simp [hempty]
  | false =>
    cases hhelp : streq [104, 101, 108, 112] name with
    | true =>
      refine ⟨⟨.help, [], [104, 101, 108, 112], argNone⟩, ?_, Or.inl rfl, rfl⟩
      simp [hempty, hhelp]
    | false =>
      refine ⟨⟨.unknown, [], [], argNone⟩, ?_, Or.inr rfl, rfl⟩
      simp [hempty, hhelp, hconfig, hmethod, hserver]

theorem handleOption_value (k : ValueOption) (msg : Bool) (name : Bytes) (optarg : Option Bytes)
    (s : CollectorArgs J) :
    ∃ s', Stores s (k.setting readJson optarg).toList s' ∧
      ((k.status readJson optarg = .illegal ∧
          handleOption msg (k.descriptor readJson) name optarg s = (none, s')) ∨
        ∃ option : ParsedOption OptionIndex, option.index ≠ .help ∧ option.index ≠ .unknown ∧
          k.status readJson optarg ≠ .illegal ∧
          handleOption msg (k.descriptor readJson) name optarg s =
            (some (option, decide (k.status readJson optarg = .ok)), s')) := by
  obtain ⟨s', hcheck, hstores⟩ := checkArg_descriptor readJson k optarg msg s
  have hindex : (k.descriptor readJson).index ≠ .help ∧
      (k.descriptor readJson).index ≠ .unknown := by
    cases k <;> simp [ValueOption.descriptor]
  refine ⟨s', hstores, ?_⟩
  unfold handleOption
  rw [hcheck]
  have hnone := status_ne_none readJson k optarg
  cases hstatus : k.status readJson optarg with
  | illegal => exact Or.inl ⟨rfl, rfl⟩
  | ok => exact Or.inr ⟨_, hindex.1, hindex.2, by simp, rfl⟩
  | ignore => exact Or.inr ⟨⟨_, name, none⟩, hindex.1, hindex.2, by simp, by simp⟩
  | none => exact absurd hstatus hnone

theorem shortOptions_unknown (msg : Bool) (next : Option Bytes) (c : UInt8) (group : Bytes)
    (s : CollectorArgs J) :
    ∃ options taken, shortOptions (usage readJson) msg next (c :: group) s =
        (some (options, taken), s) ∧ ∃ option ∈ options, option.index = .unknown := by
  have hfind (c : UInt8) : findDescriptor (usage readJson) (fun d => d.shortopt.contains c) =
      some ⟨.unknown, [], [], argNone⟩ := rfl
  induction group generalizing c with
  | nil =>
    refine ⟨[⟨.unknown, [c], none⟩], false, ?_, _, List.mem_singleton_self _, rfl⟩
    rw [shortOptions, hfind]
    rfl
  | cons c' group ih =>
    obtain ⟨options, taken, hrest, -⟩ := ih c'
    refine ⟨⟨.unknown, c :: c' :: group, none⟩ :: options, taken, ?_, _, List.mem_cons_self, rfl⟩
    rw [shortOptions, hfind]
    simp [handleOption, argNone, hrest]

end Lines

section Parses

variable {J : Type} (readJson : Bytes → Except Bytes J)

/-- No option asks for help, and none is unknown. -/
def Good (options : List (ParsedOption OptionIndex)) : Prop :=
  ∀ option ∈ options, option.index ≠ .help ∧ option.index ≠ .unknown

theorem Good.append {options options' : List (ParsedOption OptionIndex)} (h : Good options)
    (h' : Good options') : Good (options ++ options') := by
  intro option hoption
  rcases List.mem_append.mp hoption with hoption | hoption
  · exact h option hoption
  · exact h' option hoption

theorem parseParam_long (msg : Bool) (next : Option Bytes) (name : Bytes) (s : CollectorArgs J) :
    parseParam (usage readJson) msg next (endOfOptions ++ name) s =
      longOption (usage readJson) msg next (endOfOptions ++ name) s := by
  rw [parseParam, if_pos (by simp [endOfOptions])]

/-- An option with a value, as it is found with an argument after an equals sign and without. -/
theorem parseParam_value (k : ValueOption) (msg : Bool) (attached next : Option Bytes)
    (s : CollectorArgs J) :
    ∃ s', Stores s (k.setting readJson (attached.or next)).toList s' ∧
      ((k.status readJson (attached.or next) = .illegal ∧
          parseParam (usage readJson) msg next
            (k.dashed readJson ++ attached.elim [] (61 :: ·)) s = (none, s')) ∨
        ∃ options, Good options ∧ k.status readJson (attached.or next) ≠ .illegal ∧
          parseParam (usage readJson) msg next
              (k.dashed readJson ++ attached.elim [] (61 :: ·)) s =
            (some (options, decide (k.status readJson (attached.or next) = .ok) &&
              attached.isNone && next.isSome), s')) := by
  set name := (k.descriptor readJson).longopt ++ attached.elim [] (61 :: ·) with hname
  have hparam : k.dashed readJson ++ attached.elim [] (61 :: ·) = endOfOptions ++ name := by
    rw [ValueOption.dashed, List.append_assoc]
  have hnot := not_mem_longopt readJson k
  have hattached : attachedArg name = attached := by
    cases attached with
    | none =>
      rw [hname, Option.elim_none, List.append_nil]
      exact attachedArg_of_not_mem hnot
    | some arg => exact attachedArg_append hnot arg
  have hfits : streq (k.descriptor readJson).longopt name = true := by
    apply streq_iff.mpr
    cases attached with
    | none => exact Or.inl (List.append_nil _)
    | some arg => exact Or.inr ⟨arg, rfl⟩
  have hdrop : (endOfOptions ++ name).drop 2 = name := rfl
  obtain ⟨s', hstores, hhandled⟩ := handleOption_value readJson k msg (endOfOptions ++ name)
    (attached.or next) s
  refine ⟨s', hstores, ?_⟩
  rw [hparam, parseParam_long, longOption]
  simp only [hdrop, findDescriptor_value readJson k hfits, hattached]
  rcases hhandled with ⟨hillegal, hhandled⟩ | ⟨option, hhelp, hunknown, hlegal, hhandled⟩
  · rw [hhandled]
    exact Or.inl ⟨hillegal, rfl⟩
  · rw [hhandled]
    refine Or.inr ⟨[option], ?_, hlegal, rfl⟩
    intro option' hoption'
    rw [List.mem_singleton.mp hoption']
    exact ⟨hhelp, hunknown⟩

theorem isOption_dashed (k : ValueOption) (rest : Bytes) :
    isOption (k.dashed readJson ++ rest) = true ∧ k.dashed readJson ++ rest ≠ endOfOptions := by
  cases k <;> simp [isOption, ValueOption.dashed, endOfOptions, ValueOption.descriptor]

theorem setting_of_ignore {k : ValueOption} {arg : Option Bytes}
    (h : k.status readJson arg = .ignore) : k.setting readJson arg = none := by
  cases k with
  | collectorConfig =>
    unfold ValueOption.status at h
    unfold ValueOption.setting
    rcases checkConfiguration_cases readJson arg with ⟨root, hok⟩ | ⟨status, message, hother, -⟩
    · simp [hok] at h
    · simp [hother]
  | collectionMethod => simp [ValueOption.status] at h
  | grpcServer =>
    have hstatus : (checkGrpcServer arg).1 = .ignore := h
    simp [ValueOption.setting, hstatus]

theorem status_missing (k : ValueOption) :
    k.status readJson none ≠ .illegal ∧ k.setting readJson none = none := by
  cases k <;>
    simp [ValueOption.status, ValueOption.setting, checkConfiguration, checkGrpcServer]

theorem Stores.refl (s : CollectorArgs J) : Stores s [] s := ⟨rfl, rfl, rfl⟩

/-- What the rest of the arguments does, after an option that is accepted. -/
theorem workhorse_value (k : ValueOption) {msg : Bool} (attached : Option Bytes)
    (rest : List Bytes) {rest' : List Bytes} {s : CollectorArgs J} {settings : List (Setting J)}
    (hlegal : k.status readJson (attached.or rest.head?) ≠ .illegal)
    (hrest : rest' = if decide (k.status readJson (attached.or rest.head?) = .ok) &&
      attached.isNone && rest.head?.isSome then rest.tail else rest)
    (hafter : ∀ s, ∃ options s', workhorse (usage readJson) msg rest' s = (some options, s') ∧
      Good options ∧ Stores s settings s') :
    ∃ options s', workhorse (usage readJson) msg
        ((k.dashed readJson ++ attached.elim [] (61 :: ·)) :: rest) s = (some options, s') ∧
      Good options ∧
      Stores s ((k.setting readJson (attached.or rest.head?)).toList ++ settings) s' := by
  obtain ⟨s₁, hstores, hparsed⟩ := parseParam_value readJson k msg attached rest.head? s
  obtain ⟨hoption, hend⟩ := isOption_dashed readJson k (attached.elim [] (61 :: ·))
  rcases hparsed with ⟨hillegal, -⟩ | ⟨options, hgood, -, hparsed⟩
  · exact absurd hillegal hlegal
  · obtain ⟨options', s', hwork, hgood', hstores'⟩ := hafter s₁
    refine ⟨options ++ options', s', ?_, hgood.append hgood', hstores.trans hstores'⟩
    rw [workhorse_of_parsed hoption hend hparsed, ← hrest, hwork]
    rfl

theorem workhorse_of_accepted {args : List Bytes} {settings : List (Setting J)}
    (h : Accepted readJson args settings) (msg : Bool) (s : CollectorArgs J) :
    ∃ options s', workhorse (usage readJson) msg args s = (some options, s') ∧ Good options ∧
      Stores s settings s' := by
  have hempty : Good [] := by
    intro option hoption
    cases hoption
  induction h generalizing s with
  | nil => exact ⟨[], s, rfl, hempty, Stores.refl s⟩
  | stop rest hstop => exact ⟨[], s, workhorse_of_stop hstop rest s, hempty, Stores.refl s⟩
  | attached k arg hlegal hrest ih =>
    exact workhorse_value readJson k (some arg) _ hlegal (by simp) ih
  | @detached k arg rest settings hok hrest ih =>
    have hwork := workhorse_value readJson k none (arg :: rest) (s := s) (by simp [hok])
      (by simp [hok]) ih
    simpa using hwork
  | @bare k rest settings hbare hrest ih =>
    obtain ⟨hmissing, hnothing⟩ := status_missing readJson k
    rcases hbare with rfl | hignore
    · have hwork := workhorse_value readJson k none [] (s := s) (by simpa using hmissing)
        (by simp) ih
      simpa [hnothing] using hwork
    · have hwork := workhorse_value readJson k none rest (s := s) (by simp [hignore])
        (by simp [hignore]) ih
      simpa [setting_of_ignore readJson hignore] using hwork

/-- An option with a value belongs to the grammar if what the parser continues with does. -/
theorem accepted_value (k : ValueOption) (attached : Option Bytes) (rest : List Bytes)
    {settings : List (Setting J)}
    (hlegal : k.status readJson (attached.or rest.head?) ≠ .illegal)
    (hrest : Accepted readJson
      (if decide (k.status readJson (attached.or rest.head?) = .ok) && attached.isNone &&
        rest.head?.isSome then rest.tail else rest) settings) :
    ∃ settings', Accepted readJson ((k.dashed readJson ++ attached.elim [] (61 :: ·)) :: rest)
      settings' := by
  cases attached with
  | some arg =>
    have hcontinues : Accepted readJson rest settings := by simpa using hrest
    exact ⟨_, Accepted.attached k arg hlegal hcontinues⟩
  | none =>
    rw [Option.elim_none, List.append_nil]
    cases rest with
    | nil => exact ⟨[], Accepted.bare k (Or.inl rfl) Accepted.nil⟩
    | cons arg rest =>
      cases hstatus : k.status readJson (some arg) with
      | ok =>
        have hcontinues : Accepted readJson rest settings := by simpa [hstatus] using hrest
        exact ⟨_, Accepted.detached k arg hstatus hcontinues⟩
      | ignore =>
        have hcontinues : Accepted readJson (arg :: rest) settings := by
          simpa [hstatus] using hrest
        exact ⟨_, Accepted.bare k (Or.inr hstatus) hcontinues⟩
      | illegal => exact absurd hstatus hlegal
      | none => exact absurd hstatus (status_ne_none readJson k _)

theorem parseParam_other {param : Bytes} (hoption : isOption param = true)
    (hend : param ≠ endOfOptions)
    (hother : ∀ (k : ValueOption) (attached : Option Bytes),
      param ≠ k.dashed readJson ++ attached.elim [] (61 :: ·))
    (msg : Bool) (next : Option Bytes) (s : CollectorArgs J) :
    ∃ options taken, parseParam (usage readJson) msg next param s = (some (options, taken), s) ∧
      ¬ Good options := by
  by_cases hprefix : endOfOptions.isPrefixOf param = true
  · obtain ⟨name, rfl⟩ := List.isPrefixOf_iff_prefix.mp hprefix
    have hnames (k : ValueOption) : streq (k.descriptor readJson).longopt name = false := by
      by_contra hfits
      rcases streq_iff.mp (Bool.not_eq_false _ ▸ hfits) with rfl | ⟨arg, rfl⟩
      · apply hother k none
        rw [Option.elim_none, List.append_nil, ValueOption.dashed]
      · apply hother k (some arg)
        rw [Option.elim_some, ValueOption.dashed, List.append_assoc]
    obtain ⟨d, hfind, hindex, hcheck⟩ := findDescriptor_other readJson hnames
    refine ⟨[⟨d.index, endOfOptions ++ name, none⟩], false, ?_, fun hgood => ?_⟩
    · have hdrop : (endOfOptions ++ name).drop 2 = name := rfl
      rw [parseParam_long, longOption]
      simp only [hdrop, hfind, handleOption, hcheck, argNone, Bool.false_and]
    · have hboth := hgood _ (List.mem_singleton_self _)
      rcases hindex with hindex | hindex
      · exact hboth.1 hindex
      · exact hboth.2 hindex
  · obtain ⟨c, group, hgroup⟩ : ∃ c group, param.drop 1 = c :: group := by
      unfold isOption at hoption
      match param with
      | [] => simp at hoption
      | [c] => simp at hoption
      | _ :: c :: group => exact ⟨c, group, rfl⟩
    obtain ⟨options, taken, hparsed, option, hmem, hunknown⟩ :=
      shortOptions_unknown readJson msg next c group s
    refine ⟨options, taken, ?_, fun hgood => (hgood option hmem).2 hunknown⟩
    rw [parseParam, if_neg hprefix, hgroup, hparsed]

/-- The options of a vector that the parser goes through without an error, and without help or
unknown options, are those of the grammar. -/
theorem accepted_of_workhorse {args : List Bytes} {msg : Bool} {s s' : CollectorArgs J}
    {options : List (ParsedOption OptionIndex)}
    (h : workhorse (usage readJson) msg args s = (some options, s')) (hgood : Good options) :
    ∃ settings, Accepted readJson args settings := by
  induction hlength : args.length using Nat.strong_induction_on generalizing args s options with
  | _ length ih =>
    cases args with
    | nil => exact ⟨[], Accepted.nil⟩
    | cons param rest =>
      by_cases hstop : isOption param = false ∨ param = endOfOptions
      · exact ⟨[], Accepted.stop rest hstop⟩
      obtain ⟨hoption, hend⟩ : isOption param = true ∧ param ≠ endOfOptions := by simpa using hstop
      by_cases hvalue : ∃ (k : ValueOption) (attached : Option Bytes),
          param = k.dashed readJson ++ attached.elim [] (61 :: ·)
      · obtain ⟨k, attached, rfl⟩ := hvalue
        obtain ⟨s₁, -, hparsed⟩ := parseParam_value readJson k msg attached rest.head? s
        rcases hparsed with ⟨-, hparsed⟩ | ⟨found, -, hlegal, hparsed⟩
        · rw [workhorse_of_illegal hoption hend hparsed] at h
          cases h
        · rw [workhorse_of_parsed hoption hend hparsed] at h
          obtain ⟨after, hafter, rfl⟩ := Option.map_eq_some_iff.mp (congrArg Prod.fst h)
          have hstate := congrArg Prod.snd h
          have hgood' : Good after := fun option hoption =>
            hgood option (List.mem_append_right _ hoption)
          have hshorter (b : Bool) : (if b then rest.tail else rest).length < length := by
            rw [← hlength, List.length_cons]
            cases b <;> simp
          obtain ⟨settings, hsettings⟩ := ih _ (hshorter _)
            (Prod.ext hafter hstate) hgood' rfl
          exact accepted_value readJson k attached rest hlegal hsettings
      · -- the parser finds an option that asks for help or is unknown
        obtain ⟨found, taken, hparsed, hbad⟩ := parseParam_other readJson hoption hend
          (fun k attached heq => hvalue ⟨k, attached, heq⟩) msg rest.head? s
        rw [workhorse_of_parsed hoption hend hparsed] at h
        obtain ⟨after, -, rfl⟩ := Option.map_eq_some_iff.mp (congrArg Prod.fst h)
        exact absurd (fun option hoption => hgood option (List.mem_append_left _ hoption)) hbad

/-- For every argument vector: it is accepted exactly if it belongs to the grammar, and then the
last setting of each kind is stored, whether the vector is gone through once or twice. -/
theorem CollectorArgs.parse_iff (readJson : Bytes → Except Bytes J) (usageText : Bytes)
    (argv : List Bytes) (s : CollectorArgs J) :
    ((CollectorArgs.parse readJson usageText argv s).1 = true ↔
      ∃ settings, Accepted readJson argv.tail settings) ∧
    ∀ settings, Accepted readJson argv.tail settings →
      (CollectorArgs.parse readJson usageText argv s).2.1 = 0 ∧
      Stores s settings (CollectorArgs.parse readJson usageText argv s).2.2 := by
  have hparse (settings : List (Setting J)) (h : Accepted readJson argv.tail settings) :
      ∃ s', CollectorArgs.parse readJson usageText argv s = (true, 0, s') ∧
        Stores s settings s' := by
    obtain ⟨_, s₁, hcounted, -, hstores⟩ := workhorse_of_accepted readJson h false s
    obtain ⟨options, s₂, hparsed, hgood, hstores'⟩ := workhorse_of_accepted readJson h true s₁
    have hhelp : (options.any fun option => decide (option.index = .help)) = false := by
      rw [List.any_eq_false]
      intro option hoption
      simpa using (hgood option hoption).1
    have hunknown : options.find? (fun option => decide (option.index = .unknown)) = none := by
      rw [List.find?_eq_none]
      intro option hoption
      simpa using (hgood option hoption).2
    refine ⟨s₂, ?_, hstores.again hstores'⟩
    simp [CollectorArgs.parse, hcounted, hparsed, hhelp, hunknown]
  refine ⟨⟨fun haccepted => ?_, fun ⟨settings, h⟩ => ?_⟩, fun settings h => ?_⟩
  · unfold CollectorArgs.parse at haccepted
    dsimp only at haccepted
    split at haccepted
    · simp at haccepted
    · next options s₂ hparsed =>
      split_ifs at haccepted with hhelp
      split at haccepted
      · simp at haccepted
      · next hunknown =>
        apply accepted_of_workhorse readJson hparsed
        intro option hoption
        rw [List.find?_eq_none] at hunknown
        rw [Bool.not_eq_true, List.any_eq_false] at hhelp
        exact ⟨by simpa using hhelp option hoption, by simpa using hunknown option hoption⟩
  · obtain ⟨s', hresult, -⟩ := hparse settings h
    rw [hresult]
  · obtain ⟨s', hresult, hstores⟩ := hparse settings h
    rw [hresult]
    exact ⟨rfl, hstores⟩

end Parses

end AcsNext.Collector
