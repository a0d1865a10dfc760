import PerftestLite.Core.Args
import PerftestLite.Lib.Assign

/-!
# The grammar of the command line

A command line is a sequence of groups, a flag alone or an option with the token behind it, and each
group sets one field. `parseTokens` follows this grammar from left to right; help stops it.

* `Setting`, `inputFields`: the fields of `InputArgs`;
* `Group.Sets`: the groups there are and what each sets;
* `options_denote`: the table of options has exactly these groups;
* `parse_grammar`: what is accepted, what asks for help, and the value of every field.
-/

set_option autoImplicit false

namespace PerftestLite

open Word Assign

/-! ## The fields -/

/-- A field with its value. -/
inductive Setting
  | role (v : Role)
  | domainId (v : ℤ)
  | nic (v : String)
  | peer (v : String)
  | transportId (v : String)
  | latencyLogFile (v : Option String)
  | latencyStream (v : Bool)
  | datalen (v : ℤ)
  | execSeconds (v : ℤ)
  | pubrate (v : ℤ)
  | latencyCount (v : ℤ)
  | subSleepUs (v : ℤ)
  | reliable (v : Bool)
  | latencyTest (v : Bool)
  | printEverySecond (v : Bool)
  | printConfig (v : Bool)
  | printResourceLimits (v : Bool)
  deriving DecidableEq, Repr

inductive Field
  | role | domainId | nic | peer | transportId | latencyLogFile | latencyStream | datalen
  | execSeconds | pubrate | latencyCount | subSleepUs | reliable | latencyTest | printEverySecond
  | printConfig | printResourceLimits
  deriving DecidableEq, Repr

namespace Setting

def field : Setting → Field
  | role _ => .role
  | domainId _ => .domainId
  | nic _ => .nic
  | peer _ => .peer
  | transportId _ => .transportId
  | latencyLogFile _ => .latencyLogFile
  | latencyStream _ => .latencyStream
  | datalen _ => .datalen
  | execSeconds _ => .execSeconds
  | pubrate _ => .pubrate
  | latencyCount _ => .latencyCount
  | subSleepUs _ => .subSleepUs
  | reliable _ => .reliable
  | latencyTest _ => .latencyTest
  | printEverySecond _ => .printEverySecond
  | printConfig _ => .printConfig
  | printResourceLimits _ => .printResourceLimits

def apply (s : Setting) (a : InputArgs) : InputArgs :=
  match s with
  | role v => { a with role := v }
  | domainId v => { a with domainId := v }
  | nic v => { a with nic := v }
  | peer v => { a with peer := v }
  | transportId v => { a with transportId := v }
  | latencyLogFile v => { a with latencyLogFile := v }
  | latencyStream v => { a with latencyStream := v }
  | datalen v => { a with datalen := v }
  | execSeconds v => { a with execSeconds := v }
  | pubrate v => { a with pubrate := v }
  | latencyCount v => { a with latencyCount := v }
  | subSleepUs v => { a with subSleepUs := v }
  | reliable v => { a with reliable := v }
  | latencyTest v => { a with latencyTest := v }
  | printEverySecond v => { a with printEverySecond := v }
  | printConfig v => { a with printConfig := v }
  | printResourceLimits v => { a with printResourceLimits := v }

end Setting

/-- What a field holds. -/
def InputArgs.value (a : InputArgs) : Field → Setting
  | .role => .role a.role
  | .domainId => .domainId a.domainId
  | .nic => .nic a.nic
  | .peer => .peer a.peer
  | .transportId => .transportId a.transportId
  | .latencyLogFile => .latencyLogFile a.latencyLogFile
  | .latencyStream => .latencyStream a.latencyStream
  | .datalen => .datalen a.datalen
  | .execSeconds => .execSeconds a.execSeconds
  | .pubrate => .pubrate a.pubrate
  | .latencyCount => .latencyCount a.latencyCount
  | .subSleepUs => .subSleepUs a.subSleepUs
  | .reliable => .reliable a.reliable
  | .latencyTest => .latencyTest a.latencyTest
  | .printEverySecond => .printEverySecond a.printEverySecond
  | .printConfig => .printConfig a.printConfig
  | .printResourceLimits => .printResourceLimits a.printResourceLimits

theorem InputArgs.ext_value {a b : InputArgs} (h : ∀ f, a.value f = b.value f) : a = b := by
  obtain ⟨_, _, _, _, _, _, _, _, _, _, _, _, _, _, _, _, _⟩ := a
  obtain ⟨_, _, _, _, _, _, _, _, _, _, _, _, _, _, _, _, _⟩ := b
  cases h .role
  cases h .domainId
  cases h .nic
  cases h .peer
  cases h .transportId
  cases h .latencyLogFile
  cases h .latencyStream
  cases h .datalen
  cases h .execSeconds
  cases h .pubrate
  cases h .latencyCount
  cases h .subSleepUs
  cases h .reliable
  cases h .latencyTest
  cases h .printEverySecond
  cases h .printConfig
  cases h .printResourceLimits
  rfl

/-- The arguments as a record of fields. -/
def inputFields : Fields InputArgs Setting Field where
  field := Setting.field
  set := Setting.apply
  get := InputArgs.value
  get_set s a := by cases s <;> rfl
  get_set_of_ne s a f hf := by cases s <;> cases f <;> first | rfl | exact absurd rfl hf
  ext _ _ h := InputArgs.ext_value h

/-! ## Groups -/

/-- A flag, or an option followed by one token. -/
inductive Group
  | flag (opt : String)
  | value (opt text : String)
  deriving DecidableEq, Repr

/-- The tokens of a group. -/
def Group.tokens : Group → List String
  | flag opt => [opt]
  | value opt text => [opt, text]

/-- The token is the whole numeral of an integer that fits a `long`. -/
def Numeral (text : String) (v : ℤ) : Prop := strtol text.toList = ⟨v, [], true, true⟩

instance (text : String) (v : ℤ) : Decidable (Numeral text v) :=
  inferInstanceAs (Decidable (_ = _))

/-- The token is a numeral in a range. -/
def NumeralIn (min max : ℤ) (text : String) (v : ℤ) : Prop := Numeral text v ∧ min ≤ v ∧ v ≤ max

/-- The complete groups, and what each sets. -/
@[mk_iff]
inductive Group.Sets : Group → Setting → Prop
  | pub : Sets (.flag "-pub") (.role .publisher)
  | sub : Sets (.flag "-sub") (.role .subscriber)
  | domain {text v} : NumeralIn 0 232 text v → Sets (.value "-domain" text) (.domainId v)
  | nic (text) : Sets (.value "-nic" text) (.nic text)
  | peer (text) : Sets (.value "-peer" text) (.peer text)
  | transport (text) : Sets (.value "-transport" text) (.transportId text)
  | latencyLog (text) : Sets (.value "-latencyLog" text) (.latencyLogFile (some text))
  | datalen {text v} : NumeralIn 1 int32Max text v → Sets (.value "-datalen" text) (.datalen v)
  | exec {text v} : NumeralIn 1 int32Max text v → Sets (.value "-exec" text) (.execSeconds v)
  | unlimited {text} : Numeral text (-1) → Sets (.value "-pubrate" text) (.pubrate (-1))
  | pubrate {text v} : NumeralIn 1 int32Max text v → Sets (.value "-pubrate" text) (.pubrate v)
  | latencyCount {text v} : NumeralIn 1 int32Max text v →
      Sets (.value "-latencyCount" text) (.latencyCount v)
  | subSleep {text v} : NumeralIn 0 int32Max text v → Sets (.value "-subSleep" text) (.subSleepUs v)
  | rel : Sets (.flag "-rel") (.reliable true)
  | latencyTest : Sets (.flag "-latencyTest") (.latencyTest true)
  | printPeriodic : Sets (.flag "-printPeriodic") (.printEverySecond true)
  | noPrintConfig : Sets (.flag "-noPrintConfig") (.printConfig false)
  | latencyStream : Sets (.flag "-latencyStream") (.latencyStream true)

/-- The tokens that ask for help. -/
def IsHelp (opt : String) : Prop := opt = "-h" ∨ opt = "--help"

/-- The groups, one behind the other, are these tokens and set these fields. -/
def Reads (gs : List Group) (ss : List Setting) (tokens : List String) : Prop :=
  List.Forall₂ Group.Sets gs ss ∧ tokens = gs.flatMap Group.tokens

theorem parseInt32Option_ok_iff {opt text : String} {min max v : ℤ} :
    parseInt32Option opt text min max = .ok v ↔ NumeralIn min max text v := by
  unfold NumeralIn Numeral
  rcases hc : strtol text.toList with ⟨value, rest, converted, inRange⟩
  simp only [parseInt32Option, hc, Conversion.mk.injEq]
  split_ifs with hbad
  · simp only [false_iff]
    rintro ⟨⟨rfl, rfl, rfl, rfl⟩, h1, h2⟩
    simp at hbad
    omega
  · simp only [not_or, not_lt, ne_eq, not_not, Bool.not_eq_false] at hbad
    obtain ⟨rfl, rfl, rfl, h1, h2⟩ := hbad
    constructor
    · intro h
      cases h
      exact ⟨⟨rfl, rfl, rfl, rfl⟩, h1, h2⟩
    · rintro ⟨⟨rfl, -⟩, -⟩
      rfl

/-! ## The table of options -/

/-- A row of the table has the groups of the grammar that begin with its name. -/
def OptionSpec.Denotes (opt : String) : OptionSpec → Prop
  | .flag set => ∃ s, Group.Sets (.flag opt) s ∧ ∀ a, set a = s.apply a
  | .value set => ∀ text a a', set text a = .ok a' ↔ ∃ s, Group.Sets (.value opt text) s ∧ a' = s.apply a

theorem numberOption_denotes {opt : String} {min max : ℤ} {set : ℤ → InputArgs → InputArgs}
    (setting : ℤ → Setting) (hset : ∀ v a, set v a = (setting v).apply a)
    (hsets : ∀ text s, Group.Sets (.value opt text) s ↔
      ∃ v, NumeralIn min max text v ∧ s = setting v) :
    (numberOption opt min max set).2.Denotes opt := by
  intro text a a'
  simp only [hsets]
  constructor
  · intro h
    cases hv : parseInt32Option opt text min max with
    | error e => simp [hv, Except.map] at h
    | ok v =>
      simp only [hv, Except.map, Except.ok.injEq] at h
      exact ⟨_, ⟨v, parseInt32Option_ok_iff.mp hv, rfl⟩, by rw [← h, hset]⟩
  · rintro ⟨s, ⟨v, hv, rfl⟩, rfl⟩
    simp [parseInt32Option_ok_iff.mpr hv, Except.map, hset]

theorem textOption_denotes {opt : String} {set : String → InputArgs → InputArgs}
    (setting : String → Setting) (hset : ∀ v a, set v a = (setting v).apply a)
    (hsets : ∀ text s, Group.Sets (.value opt text) s ↔ s = setting text) :
    (textOption opt set).2.Denotes opt := by
  intro text a a'
  simp only [hsets, exists_eq_left, ← hset]
  constructor
  · intro h
    cases h
    rfl
  · rintro rfl
    rfl

theorem pubrate_sets_iff {text : String} {s : Setting} : Group.Sets (.value "-pubrate" text) s ↔
    ∃ v, NumeralIn (-1) int32Max text v ∧ v ≠ 0 ∧ s = .pubrate v := by
  constructor
  · intro h
    rcases (by simpa [Group.sets_iff] using h : (Numeral text (-1) ∧ s = .pubrate (-1)) ∨
      ∃ v, NumeralIn 1 int32Max text v ∧ s = .pubrate v) with ⟨hnum, rfl⟩ | ⟨v, ⟨hnum, h1, h2⟩, rfl⟩
    · exact ⟨-1, ⟨hnum, by decide, by decide⟩, by decide, rfl⟩
    · exact ⟨v, ⟨hnum, by omega, h2⟩, by omega, rfl⟩
  · rintro ⟨v, ⟨hnum, h1, h2⟩, h0, rfl⟩
    by_cases hneg : v = -1
    · subst hneg
      exact .unlimited hnum
    · exact .pubrate ⟨hnum, by omega, h2⟩

theorem pubrateOption_denotes : pubrateOption.2.Denotes "-pubrate" := by
  intro text a a'
  simp only [pubrate_sets_iff]
  constructor
  · intro h
    cases hv : parseInt32Option "-pubrate" text (-1) int32Max with
    | error e => simp [hv, Except.bind] at h
    | ok v =>
      simp only [hv, Except.bind] at h
      split_ifs at h with h0
      cases h
      exact ⟨_, ⟨v, parseInt32Option_ok_iff.mp hv, h0, rfl⟩, rfl⟩
  · rintro ⟨s, ⟨v, hv, h0, rfl⟩, rfl⟩
    simp [parseInt32Option_ok_iff.mpr hv, Except.bind, h0, Setting.apply]

/-- **Every row of the table has the groups of the grammar.** -/
theorem options_denote : ∀ o ∈ options, o.2.Denotes o.1 := by
  have hflag : ∀ (opt : String) (set : InputArgs → InputArgs) (s : Setting),
      Group.Sets (.flag opt) s → (∀ a, set a = s.apply a) → (OptionSpec.flag set).Denotes opt :=
    fun _ _ s h hset => ⟨s, h, hset⟩
  simp only [options, List.forall_mem_cons]
  exact ⟨hflag _ _ _ .pub fun _ => rfl, hflag _ _ _ .sub fun _ => rfl,
    numberOption_denotes .domainId (fun _ _ => rfl) fun _ _ => by simp [Group.sets_iff, numberOption],
    textOption_denotes .nic (fun _ _ => rfl) fun _ _ => by simp [Group.sets_iff, textOption],
    textOption_denotes .peer (fun _ _ => rfl) fun _ _ => by simp [Group.sets_iff, textOption],
    textOption_denotes .transportId (fun _ _ => rfl) fun _ _ => by simp [Group.sets_iff, textOption],
    textOption_denotes (.latencyLogFile ∘ some) (fun _ _ => rfl) fun _ _ => by
      simp [Group.sets_iff, textOption],
    numberOption_denotes .datalen (fun _ _ => rfl) fun _ _ => by simp [Group.sets_iff, numberOption],
    numberOption_denotes .execSeconds (fun _ _ => rfl) fun _ _ => by
      simp [Group.sets_iff, numberOption],
    pubrateOption_denotes,
    numberOption_denotes .latencyCount (fun _ _ => rfl) fun _ _ => by
      simp [Group.sets_iff, numberOption],
    numberOption_denotes .subSleepUs (fun _ _ => rfl) fun _ _ => by
      simp [Group.sets_iff, numberOption],
    hflag _ _ _ .rel fun _ => rfl, hflag _ _ _ .latencyTest fun _ => rfl,
    hflag _ _ _ .printPeriodic fun _ => rfl, hflag _ _ _ .noPrintConfig fun _ => rfl,
    hflag _ _ _ .latencyStream fun _ => rfl, by simp⟩

theorem mem_options {opt : String} {spec : OptionSpec} (h : options.lookup opt = some spec) :
    (opt, spec) ∈ options := by
  obtain ⟨l, r, h, -⟩ := List.lookup_eq_some_iff.mp h
  rw [h]
  exact List.mem_append_right l List.mem_cons_self

/-- Each group of the grammar is found in the table. -/
theorem Group.Sets.lookup {g : Group} {s : Setting} (h : g.Sets s) :
    match g with
    | .flag opt => ¬ IsHelp opt ∧ ∃ set, options.lookup opt = some (.flag set)
    | .value opt _ => ¬ IsHelp opt ∧ ∃ set, options.lookup opt = some (.value set) := by
  cases h <;> exact ⟨by simp [IsHelp], _, rfl⟩

/-! ## The loop over the tokens -/

/-- A complete group sets its field and the loop goes on behind it. -/
theorem parseTokens_group {g : Group} {s : Setting} (h : g.Sets s) (a : InputArgs)
    (rest : List String) : parseTokens a (g.tokens ++ rest) = parseTokens (s.apply a) rest := by
  have hlook := h.lookup
  cases g with
  | flag opt =>
    obtain ⟨hhelp, set, hl⟩ := hlook
    obtain ⟨s', hs', hset⟩ := options_denote _ (mem_options hl)
    have hsame : s' = s := by
      cases h <;> simpa [Group.sets_iff] using hs'
    unfold IsHelp at hhelp
    rw [Group.tokens, List.singleton_append, parseTokens, if_neg hhelp, hl]
    dsimp only
    rw [hset, hsame]
  | value opt text =>
    obtain ⟨hhelp, set, hl⟩ := hlook
    have hset : set text a = .ok (s.apply a) := (options_denote _ (mem_options hl) text a _).mpr ⟨s, h, rfl⟩
    unfold IsHelp at hhelp
    rw [Group.tokens, List.cons_append, List.singleton_append, parseTokens, if_neg hhelp, hl]
    dsimp only
    rw [hset]

/-- **Complete groups one behind the other**: every one of them sets its field. -/
theorem parseTokens_reads {gs : List Group} {ss : List Setting} {tokens : List String}
    (h : Reads gs ss tokens) (a : InputArgs) (rest : List String) :
    parseTokens a (tokens ++ rest) = parseTokens (inputFields.assign ss a) rest := by
  obtain ⟨hsets, rfl⟩ := h
  induction hsets generalizing a with
  | nil => rfl
  | cons hg _ ih =>
    rw [List.flatMap_cons, List.append_assoc, parseTokens_group hg, ih]
    rfl

/-- One more group in front. -/
theorem Reads.cons {g : Group} {s : Setting} {gs : List Group} {ss : List Setting}
    {tokens : List String} (hg : g.Sets s) (h : Reads gs ss tokens) :
    Reads (g :: gs) (s :: ss) (g.tokens ++ tokens) :=
  ⟨.cons hg h.1, by rw [List.flatMap_cons, ← h.2]⟩

/-- What the loop has read when it stops. -/
def Stops (a : InputArgs) (tokens : List String) : ParseResult → Prop
  | .ok a' => ∃ gs ss, Reads gs ss tokens ∧ a' = inputFields.assign ss a
  | .help => ∃ gs ss front opt rest, Reads gs ss front ∧ IsHelp opt ∧ tokens = front ++ opt :: rest
  | .error _ => True

theorem Stops.cons {g : Group} {s : Setting} (hg : g.Sets s) {a : InputArgs} {tokens : List String}
    {r : ParseResult} (h : Stops (s.apply a) tokens r) : Stops a (g.tokens ++ tokens) r := by
  cases r with
  | ok a' =>
    obtain ⟨gs, ss, hr, rfl⟩ := h
    exact ⟨g :: gs, s :: ss, hr.cons hg, rfl⟩
  | help =>
    obtain ⟨gs, ss, front, opt, rest, hr, hopt, rfl⟩ := h
    exact ⟨g :: gs, s :: ss, _, opt, rest, hr.cons hg, hopt, by rw [List.append_assoc]⟩
  | error e => trivial

/-- **The loop reads complete groups** until the tokens end or help is asked for. -/
theorem parseTokens_stops (a : InputArgs) (tokens : List String) :
    Stops a tokens (parseTokens a tokens) := by
  fun_induction parseTokens a tokens with
  | case1 a => exact ⟨[], [], ⟨.nil, rfl⟩, rfl⟩
  | case2 a opt rest hhelp => exact ⟨[], [], [], opt, rest, ⟨.nil, rfl⟩, hhelp, rfl⟩
  | case3 => trivial
  | case4 a opt rest hhelp set hl ih =>
    obtain ⟨s, hs, hset⟩ := options_denote _ (mem_options hl)
    rw [hset] at ih ⊢
    exact ih.cons hs
  | case5 => trivial
  | case6 a opt hhelp set hl text rest a' hset ih =>
    obtain ⟨s, hs, rfl⟩ := (options_denote _ (mem_options hl) text a a').mp hset
    exact ih.cons hs
  | case7 => trivial

/-- What the help request is behind. -/
def AsksHelp (tokens : List String) : Prop :=
  ∃ gs ss front opt rest, Reads gs ss front ∧ IsHelp opt ∧ tokens = front ++ opt :: rest

theorem parseTokens_ok_iff {a a' : InputArgs} {tokens : List String} :
    parseTokens a tokens = .ok a' ↔ ∃ gs ss, Reads gs ss tokens ∧ a' = inputFields.assign ss a := by
  constructor
  · intro h
    have hstop := parseTokens_stops a tokens
    rw [h] at hstop
    exact hstop
  · rintro ⟨gs, ss, hr, rfl⟩
    have := parseTokens_reads hr a []
    rwa [List.append_nil] at this

theorem parseTokens_help_iff {a : InputArgs} {tokens : List String} :
    parseTokens a tokens = .help ↔ AsksHelp tokens := by
  constructor
  · intro h
    have hstop := parseTokens_stops a tokens
    rw [h] at hstop
    exact hstop
  · rintro ⟨gs, ss, front, opt, rest, hr, hopt, rfl⟩
    unfold IsHelp at hopt
    rw [parseTokens_reads hr, parseTokens, if_pos hopt]

/-- **The parser accepts exactly its grammar.** It accepts complete groups, and then every field holds
what the last group that sets it says, or its default; it answers with help when help is asked for
behind complete groups; it rejects everything else. Groups of different fields may change places. -/
theorem parse_grammar (T : TypeInterface) (d : ArgDefaults) (argv : List String) :
    (∀ a, parseArguments T d argv = .ok a ↔ ∃ gs ss, Reads gs ss argv.tail ∧
      ∀ f, a.value f = (inputFields.of f ss).getLast?.getD ((inputArgsInit T d).value f)) ∧
    (parseArguments T d argv = .help ↔ AsksHelp argv.tail) ∧
    ((∃ e, parseArguments T d argv = .error e) ↔
      ¬ (∃ gs ss, Reads gs ss argv.tail) ∧ ¬ AsksHelp argv.tail) ∧
    (∀ gs ss gs' ss' tokens', Reads gs ss argv.tail → Reads gs' ss' tokens' →
      (∀ f, inputFields.of f ss = inputFields.of f ss') →
      parseArguments T d (argv.headD "" :: tokens') = parseArguments T d argv) := by
  have hok : ∀ a, parseArguments T d argv = .ok a ↔ ∃ gs ss, Reads gs ss argv.tail ∧
      a = inputFields.assign ss (inputArgsInit T d) := fun a => parseTokens_ok_iff
  refine ⟨fun a => ?_, parseTokens_help_iff, ?_, fun gs ss gs' ss' tokens' hr hr' hof => ?_⟩
  · rw [hok]
    refine exists_congr fun gs => exists_congr fun ss => and_congr_right fun _ => ?_
    constructor
    · rintro rfl f
      exact get_assign inputFields ss _ f
    · intro hv
      apply InputArgs.ext_value
      intro f
      exact (hv f).trans (get_assign inputFields ss _ f).symm
  · rw [← parseTokens_help_iff (a := inputArgsInit T d)]
    constructor
    · rintro ⟨e, he⟩
      refine ⟨fun ⟨gs, ss, hr⟩ => ?_, fun hh => ?_⟩
      · rw [(hok _).mpr ⟨gs, ss, hr, rfl⟩] at he
        cases he
      · cases he.symm.trans hh
    · rintro ⟨hnok, hnhelp⟩
      cases hp : parseArguments T d argv with
      | ok a =>
        obtain ⟨gs, ss, hr, -⟩ := (hok a).mp hp
        exact absurd ⟨gs, ss, hr⟩ hnok
      | help => exact absurd hp hnhelp
      | error e => exact ⟨e, rfl⟩
  · rw [(hok _).mpr ⟨gs, ss, hr, rfl⟩]
    refine parseTokens_ok_iff.mpr ⟨gs', ss', hr', ?_⟩
    exact assign_congr inputFields hof _

-- a value may look like an option, and the last group of a field wins
example : parseArguments sequenceType (configDefaults .publisher)
    ["perftest", "-nic", "-h", "-datalen", "0x40", "-exec", "5", "-datalen", "010"] =
      .ok { publisherDefaults with nic := "-h", datalen := 8, execSeconds := 5 } := by
  decide +kernel

end PerftestLite
