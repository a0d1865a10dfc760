import PerftestLite.CommandLine.Grammar
import PerftestLite.Lib.Printf

/-!
# A command line for every setting

The arguments of a test written down as a command line: a group for each field that does not hold its
default, the numbers in decimal.

* `numeral_signed`: `strtol` reads a decimal numeral back, which it does not take for an octal one;
* `Settable`: the arguments a command line can give, in a build with the given defaults;
* `commandLine`, `command_line_round_trip`: these are read back from their command line, and there is no
  command line for any others.
-/

set_option autoImplicit false

namespace PerftestLite

open Word Assign Printf

/-! ## Numerals -/

theorem digitValue_of_isDigit {c : Char} (h : c.isDigit = true) :
    digitValue c = some (c.toNat - '0'.toNat) := by
  obtain ⟨h₀, h₉⟩ := Char.isDigit_iff_toNat.mp h
  exact if_pos ⟨h₀, h₉⟩

theorem isDigit_ten {c : Char} (h : c.isDigit = true) : isDigit 10 c = true := by
  obtain ⟨h₀, h₉⟩ := Char.isDigit_iff_toNat.mp h
  have hlt : c.toNat - '0'.toNat < 10 := by
    change c.toNat ≤ 57 at h₉
    change c.toNat - 48 < 10
    omega
  rw [isDigit, digitValue_of_isDigit h]
  exact decide_eq_true hlt

/-- The digits of a number, added up. -/
theorem magnitude_decimal (n : ℕ) : magnitude 10 (decimal n) = n := by
  have hfold : ∀ cs : List Char, (∀ c ∈ cs, c.isDigit = true) → ∀ m,
      cs.foldl (fun n c => n * 10 + (digitValue c).getD 0) m = Nat.ofDigitChars 10 cs m := by
    intro cs
    induction cs with
    | nil => exact fun _ _ => rfl
    | cons c cs ih =>
      intro h m
      rw [List.foldl_cons, digitValue_of_isDigit (h c List.mem_cons_self), Option.getD_some, Nat.mul_comm m,
        ih (fun d hd => h d (List.mem_cons_of_mem _ hd)), Nat.ofDigitChars_cons]
  unfold magnitude
  rw [hfold _ (fun c => decimal_digits), decimal, Nat.ofDigitChars_ten_toDigits]

/-- The characters of a number are neither blanks nor signs. -/
theorem digit_ne {c : Char} (h : c.isDigit = true) : isSpace c = false ∧ c ≠ '-' ∧ c ≠ '+' := by
  obtain ⟨h₀, h₉⟩ := Char.isDigit_iff_toNat.mp h
  refine ⟨?_, ?_, ?_⟩
  · change 48 ≤ c.toNat at h₀
    have hblank : c ≠ ' ' := by
      rintro rfl
      exact absurd h₀ (by decide)
    simp [isSpace, hblank]
    omega
  · rintro rfl
    exact absurd h (by decide)
  · rintro rfl
    exact absurd h (by decide)

/-- A number is decimal, zero apart, which is octal. -/
theorem baseOf_decimal (n : ℕ) : baseOf (decimal n) = (if n = 0 then 8 else 10, decimal n) := by
  rcases Nat.eq_zero_or_pos n with rfl | hn
  · rfl
  · obtain ⟨c, t, ht, hc⟩ := decimal_head hn
    rw [if_neg (Nat.pos_iff_ne_zero.mp hn), ht]
    unfold baseOf
    split
    case h_1 heq => exact absurd (List.cons.inj heq).1 hc
    case h_2 heq => exact absurd (List.cons.inj heq).1 hc
    case h_3 => rfl

/-- The sign comes off. -/
theorem signOf_signed (v : ℤ) : signOf (signed v) = (decide (v < 0), decimal v.natAbs) := by
  unfold signed
  cases decide (v < 0) with
  | true => rfl
  | false =>
    change signOf (decimal v.natAbs) = (false, decimal v.natAbs)
    have hdigits : ∀ c ∈ decimal v.natAbs, c.isDigit = true := fun c => decimal_digits
    cases hd : decimal v.natAbs with
    | nil => rfl
    | cons c t =>
      obtain ⟨-, hminus, hplus⟩ := digit_ne (hdigits c (hd ▸ List.mem_cons_self))
      unfold signOf
      split
      case h_1 heq => exact absurd (List.cons.inj heq).1 hminus
      case h_2 heq => exact absurd (List.cons.inj heq).1 hplus
      case h_3 => rfl

/-- Nothing is skipped in front of it. -/
theorem signed_no_space (v : ℤ) : (signed v).dropWhile isSpace = signed v := by
  have hnone : ∀ c ∈ signed v, isSpace c = false := by
    intro c hc
    rcases List.mem_append.mp hc with hc | hc
    · unfold sign at hc
      split_ifs at hc
      · rw [List.mem_singleton.mp hc]
        rfl
      · cases hc
    · exact (digit_ne (decimal_digits hc)).1
  cases hs : signed v with
  | nil => rfl
  | cons c t => rw [List.dropWhile_cons_of_neg (by simp [hnone c (hs ▸ List.mem_cons_self)])]

/-- A number, as a token. -/
def numeral (v : ℤ) : String := String.ofList (signed v)

/-- **A numeral is read back.** -/
theorem numeral_signed {v : ℤ} (hlo : -9223372036854775808 ≤ v) (hhi : v ≤ 9223372036854775807) :
    Numeral (numeral v) v := by
  by_cases hv : v = 0
  · subst hv
    decide +kernel
  · have hn : v.natAbs ≠ 0 := Int.natAbs_ne_zero.mpr hv
    have hten : ∀ c ∈ decimal v.natAbs, isDigit 10 c = true := fun c hc => isDigit_ten (decimal_digits hc)
    have hvalue : (if decide (v < 0) = true then -(v.natAbs : ℤ) else (v.natAbs : ℤ)) = v := by
      split_ifs with h
      · have := of_decide_eq_true h
        omega
      · have := of_decide_eq_false (Bool.eq_false_of_not_eq_true h)
        omega
    unfold Numeral numeral strtol
    rw [String.toList_ofList, signed_no_space, signOf_signed]
    dsimp only
    rw [baseOf_decimal, if_neg hn]
    dsimp only
    rw [List.takeWhile_eq_self_iff.mpr hten, List.dropWhile_eq_nil_iff.mpr hten, magnitude_decimal, hvalue,
      if_neg (decimal_ne_nil _), if_neg (by omega), if_neg (by omega)]

/-! ## What a command line can set -/

/-- The arguments of an accepted command line, seen from outside: a number holds its default or lies in the
range of its option, a flag without an opposite holds its default or is set. -/
structure Settable (T : TypeInterface) (d : ArgDefaults) (a : InputArgs) : Prop where
  domainId : a.domainId = d.domainId ∨ 0 ≤ a.domainId ∧ a.domainId ≤ 232
  datalen : a.datalen = T.defaultSampleSize ∨ 1 ≤ a.datalen ∧ a.datalen ≤ int32Max
  execSeconds : a.execSeconds = d.execSeconds ∨ 1 ≤ a.execSeconds ∧ a.execSeconds ≤ int32Max
  pubrate : a.pubrate = d.pubrate ∨ a.pubrate = -1 ∨ 1 ≤ a.pubrate ∧ a.pubrate ≤ int32Max
  latencyCount : a.latencyCount = d.latencyCount ∨ 1 ≤ a.latencyCount ∧ a.latencyCount ≤ int32Max
  subSleepUs : a.subSleepUs = d.subSleepUs ∨ 0 ≤ a.subSleepUs ∧ a.subSleepUs ≤ int32Max
  latencyStream : a.latencyStream = d.latencyStream ∨ a.latencyStream = true
  reliable : a.reliable = d.reliable ∨ a.reliable = true
  latencyTest : a.latencyTest = d.latencyTest ∨ a.latencyTest = true
  printResourceLimits : a.printResourceLimits = true

/-- A number as the value of its option, unless it is the default. -/
def numberGroup (opt : String) (default v : ℤ) : Option Group :=
  if v = default then none else some (.value opt (numeral v))

/-- A flag, if it is set. -/
def flagGroup (opt : String) (b : Bool) : Option Group := if b then some (.flag opt) else none

/-- The group that sets a field, unless it holds its default anyway. -/
def InputArgs.group (T : TypeInterface) (d : ArgDefaults) (a : InputArgs) : Field → Option Group
  | .role => some (.flag (if a.role = .publisher then "-pub" else "-sub"))
  | .domainId => numberGroup "-domain" d.domainId a.domainId
  | .nic => some (.value "-nic" a.nic)
  | .peer => some (.value "-peer" a.peer)
  | .transportId => some (.value "-transport" a.transportId)
  | .latencyLogFile => a.latencyLogFile.map (.value "-latencyLog")
  | .latencyStream => flagGroup "-latencyStream" a.latencyStream
  | .datalen => numberGroup "-datalen" T.defaultSampleSize a.datalen
  | .execSeconds => numberGroup "-exec" d.execSeconds a.execSeconds
  | .pubrate => numberGroup "-pubrate" d.pubrate a.pubrate
  | .latencyCount => numberGroup "-latencyCount" d.latencyCount a.latencyCount
  | .subSleepUs => numberGroup "-subSleep" d.subSleepUs a.subSleepUs
  | .reliable => flagGroup "-rel" a.reliable
  | .latencyTest => flagGroup "-latencyTest" a.latencyTest
  | .printEverySecond => flagGroup "-printPeriodic" a.printEverySecond
  | .printConfig => flagGroup "-noPrintConfig" (!a.printConfig)
  | .printResourceLimits => none

/-- All fields. -/
def allFields : List Field :=
  [.role, .domainId, .nic, .peer, .transportId, .latencyLogFile, .latencyStream, .datalen, .execSeconds,
    .pubrate, .latencyCount, .subSleepUs, .reliable, .latencyTest, .printEverySecond, .printConfig,
    .printResourceLimits]

/-- The arguments, written down behind the name of the program. -/
def commandLine (T : TypeInterface) (d : ArgDefaults) (a : InputArgs) : List String :=
  (allFields.filterMap (a.group T d)).flatMap Group.tokens

variable {T : TypeInterface} {d : ArgDefaults} {a : InputArgs} {f : Field} {g : Group}

theorem numeral_in {min max v : ℤ} (hmin : -9223372036854775808 ≤ min) (hmax : max ≤ 9223372036854775807)
    (h : min ≤ v ∧ v ≤ max) : NumeralIn min max (numeral v) v :=
  ⟨numeral_signed (hmin.trans h.1) (h.2.trans hmax), h⟩

theorem numberGroup_eq_some {opt : String} {default v : ℤ} (h : numberGroup opt default v = some g) :
    v ≠ default ∧ g = .value opt (numeral v) := by
  simp only [numberGroup, Option.ite_none_left_eq_some, Option.some.injEq] at h
  exact ⟨h.1, h.2.symm⟩

theorem flagGroup_eq_some {opt : String} {b : Bool} (h : flagGroup opt b = some g) :
    b = true ∧ g = .flag opt := by
  simp only [flagGroup, Option.ite_none_right_eq_some, Option.some.injEq] at h
  exact ⟨h.1, h.2.symm⟩

/-- The group of a field sets it to what it holds. -/
theorem group_sets (h : Settable T d a) (hg : a.group T d f = some g) : g.Sets (a.value f) := by
  have hmax : int32Max ≤ 9223372036854775807 := by decide
  cases f with
  | role =>
    cases hg
    cases hr : a.role with
    | publisher => simpa [InputArgs.value, hr] using Group.Sets.pub
    | subscriber => simpa [InputArgs.value, hr] using Group.Sets.sub
  | nic =>
    cases hg
    exact .nic a.nic
  | peer =>
    cases hg
    exact .peer a.peer
  | transportId =>
    cases hg
    exact .transport a.transportId
  | latencyLogFile =>
    obtain ⟨text, htext, rfl⟩ := Option.map_eq_some_iff.mp hg
    rw [InputArgs.value, htext]
    exact .latencyLog text
  | domainId =>
    obtain ⟨hne, rfl⟩ := numberGroup_eq_some hg
    exact .domain (numeral_in (by decide) (by decide) (h.domainId.resolve_left hne))
  | datalen =>
    obtain ⟨hne, rfl⟩ := numberGroup_eq_some hg
    exact .datalen (numeral_in (by decide) hmax (h.datalen.resolve_left hne))
  | execSeconds =>
    obtain ⟨hne, rfl⟩ := numberGroup_eq_some hg
    exact .exec (numeral_in (by decide) hmax (h.execSeconds.resolve_left hne))
  | pubrate =>
    obtain ⟨hne, rfl⟩ := numberGroup_eq_some hg
    rcases h.pubrate.resolve_left hne with hp | hp
    · rw [InputArgs.value, hp]
      exact .unlimited (numeral_signed (by decide) (by decide))
    · exact .pubrate (numeral_in (by decide) hmax hp)
  | latencyCount =>
    obtain ⟨hne, rfl⟩ := numberGroup_eq_some hg
    exact .latencyCount (numeral_in (by decide) hmax (h.latencyCount.resolve_left hne))
  | subSleepUs =>
    obtain ⟨hne, rfl⟩ := numberGroup_eq_some hg
    exact .subSleep (numeral_in (by decide) hmax (h.subSleepUs.resolve_left hne))
  | latencyStream | reliable | latencyTest | printEverySecond =>
    obtain ⟨hb, rfl⟩ := flagGroup_eq_some hg
    rw [InputArgs.value, hb]
    constructor
  | printConfig =>
    obtain ⟨hb, rfl⟩ := flagGroup_eq_some hg
    rw [InputArgs.value, show a.printConfig = false by simpa using hb]
    exact .noPrintConfig
  | printResourceLimits => cases hg

/-- A field without a group holds its default. -/
theorem group_none (h : Settable T d a) (hg : (a.group T d f).isSome = false) :
    a.value f = (inputArgsInit T d).value f := by
  have hnumber : ∀ {opt : String} {default v : ℤ}, (numberGroup opt default v).isSome = false →
      v = default := by
    intro opt default v hv
    by_contra hne
    rw [numberGroup, if_neg hne] at hv
    cases hv
  have hflag : ∀ {opt : String} {b : Bool}, (flagGroup opt b).isSome = false → b = false := by
    intro opt b hb
    cases b with
    | false => rfl
    | true => cases hb
  cases f with
  | role | nic | peer | transportId => cases hg
  | latencyLogFile =>
    have hnone : a.latencyLogFile = none := by simpa [InputArgs.group] using hg
    exact congrArg Setting.latencyLogFile hnone
  | domainId => exact congrArg Setting.domainId (hnumber hg)
  | datalen => exact congrArg Setting.datalen (hnumber hg)
  | execSeconds => exact congrArg Setting.execSeconds (hnumber hg)
  | pubrate => exact congrArg Setting.pubrate (hnumber hg)
  | latencyCount => exact congrArg Setting.latencyCount (hnumber hg)
  | subSleepUs => exact congrArg Setting.subSleepUs (hnumber hg)
  | latencyStream =>
    exact congrArg Setting.latencyStream (h.latencyStream.resolve_right (by simp [hflag hg]))
  | reliable => exact congrArg Setting.reliable (h.reliable.resolve_right (by simp [hflag hg]))
  | latencyTest => exact congrArg Setting.latencyTest (h.latencyTest.resolve_right (by simp [hflag hg]))
  | printEverySecond => exact congrArg Setting.printEverySecond (hflag hg)
  | printConfig => exact congrArg Setting.printConfig (show a.printConfig = true by simpa using hflag hg)
  | printResourceLimits => exact congrArg Setting.printResourceLimits h.printResourceLimits

/-- The groups of some fields, in order, set them. -/
theorem groups_reads (h : Settable T d a) (fs : List Field) :
    Reads (fs.filterMap (a.group T d)) ((fs.filter fun f => (a.group T d f).isSome).map a.value)
      ((fs.filterMap (a.group T d)).flatMap Group.tokens) := by
  refine ⟨?_, rfl⟩
  induction fs with
  | nil => exact .nil
  | cons f fs ih =>
    rw [List.filterMap_cons, List.filter_cons]
    cases hg : a.group T d f with
    | none => exact ih
    | some g => exact .cons (group_sets h hg) ih

theorem mem_allFields (f : Field) : f ∈ allFields := by
  cases f <;> decide

/-- **What is written down is read back.** -/
theorem parse_commandLine (h : Settable T d a) (name : String) :
    parseArguments T d (name :: commandLine T d a) = .ok a := by
  refine parseTokens_ok_iff.mpr ⟨_, _, groups_reads h allFields, ?_⟩
  exact (assign_written inputFields mem_allFields (fun f => (a.group T d f).isSome)
    (fun f => by cases f <;> rfl) fun f hf => group_none h hf).symm

/-- What a group can set. -/
def Setting.Allowed : Setting → Prop
  | .domainId v => 0 ≤ v ∧ v ≤ 232
  | .datalen v | .execSeconds v | .latencyCount v => 1 ≤ v ∧ v ≤ int32Max
  | .pubrate v => v = -1 ∨ 1 ≤ v ∧ v ≤ int32Max
  | .subSleepUs v => 0 ≤ v ∧ v ≤ int32Max
  | .latencyStream b | .reliable b | .latencyTest b => b = true
  | .printResourceLimits _ => False
  | _ => True

theorem Group.Sets.allowed {s : Setting} (h : g.Sets s) : s.Allowed := by
  cases h with
  | domain hnum | datalen hnum | exec hnum | latencyCount hnum | subSleep hnum => exact hnum.2
  | unlimited _ => exact .inl rfl
  | pubrate hnum => exact .inr hnum.2
  | latencyStream | rel | latencyTest => exact rfl
  | _ => trivial

/-- **What a command line has set can be set.** -/
theorem settable_of_parse {argv : List String} (h : parseArguments T d argv = .ok a) : Settable T d a := by
  obtain ⟨gs, ss, ⟨hsets, -⟩, ha⟩ := parseTokens_ok_iff.mp h
  have hgroup : ∀ s ∈ ss, s.Allowed := by
    clear ha
    induction hsets with
    | nil => exact fun s hs => absurd hs List.not_mem_nil
    | cons hg _ ih =>
      intro s hs
      rcases List.mem_cons.mp hs with rfl | hs
      · exact hg.allowed
      · exact ih s hs
  -- a field holds its default or what some group sets it to
  have hvalue : ∀ f, a.value f = (inputArgsInit T d).value f ∨ (a.value f).Allowed := by
    intro f
    have hget : a.value f = (inputFields.of f ss).getLast?.getD ((inputArgsInit T d).value f) := by
      rw [ha]
      exact get_assign inputFields ss _ f
    cases hlast : (inputFields.of f ss).getLast? with
    | none =>
      rw [hlast] at hget
      exact .inl hget
    | some s =>
      rw [hlast] at hget
      rw [hget]
      exact .inr (hgroup s (List.mem_of_mem_filter (List.mem_of_getLast? hlast)))
  exact
    { domainId := (hvalue .domainId).imp Setting.domainId.inj id
      datalen := (hvalue .datalen).imp Setting.datalen.inj id
      execSeconds := (hvalue .execSeconds).imp Setting.execSeconds.inj id
      pubrate := (hvalue .pubrate).imp Setting.pubrate.inj id
      latencyCount := (hvalue .latencyCount).imp Setting.latencyCount.inj id
      subSleepUs := (hvalue .subSleepUs).imp Setting.subSleepUs.inj id
      latencyStream := (hvalue .latencyStream).imp Setting.latencyStream.inj id
      reliable := (hvalue .reliable).imp Setting.reliable.inj id
      latencyTest := (hvalue .latencyTest).imp Setting.latencyTest.inj id
      printResourceLimits := (hvalue .printResourceLimits).elim Setting.printResourceLimits.inj False.elim }

/-- **Every setting has a command line.** Arguments come back from the command line that writes them down if and
only if they can be set; and a command line that gives any other arguments does not exist. -/
theorem command_line_round_trip (T : TypeInterface) (d : ArgDefaults) (name : String) (a : InputArgs) :
    (parseArguments T d (name :: commandLine T d a) = .ok a ↔ Settable T d a) ∧
      ((∃ argv, parseArguments T d argv = .ok a) ↔ Settable T d a) :=
  ⟨⟨settable_of_parse, fun h => parse_commandLine h name⟩,
    ⟨fun h => h.elim fun _ => settable_of_parse, fun h => ⟨_, parse_commandLine h name⟩⟩⟩

example : commandLine sequenceType (configDefaults .publisher)
    { publisherDefaults with pubrate := 500, reliable := true } =
      ["-pub", "-nic", "lo", "-peer", "127.0.0.1", "-transport", "UDPv4", "-pubrate", "500", "-rel"] := by
  decide +kernel

end PerftestLite
