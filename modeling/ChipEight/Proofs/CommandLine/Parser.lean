import ChipEight.Proofs.CommandLine.Reading

/-!
# The parser of the command line

`CommandLine.parse` keeps to what is documented of parsers (`documented_parse`).

* An option that is left pending in front of a line may as well be stored first, since the first
  item of the line completes it (`State.finish_of_pending`). With what reading a line leaves alone,
  this gives an option in front of a line and one behind it.
* `State.Sound` is what every argument that is read keeps: numbers are in their ranges.
-/

namespace ChipEight.CommandLine

namespace State

variable {s t : State}

/-! ### The end of a line -/

/-- The settings once the rest of a line was read. -/
def finish (s : State) (line : List String) : Except Exit Settings :=
  match s.readAll (line.map String.toList) with
  | .error exit => .error exit
  | .ok t => t.settings

theorem finish_append (s : State) (piece line : List String) :
    s.finish (piece ++ line) =
      match s.readAll (piece.map String.toList) with
      | .error exit => .error exit
      | .ok t => t.finish line := by
  unfold finish
  rw [List.map_append, readAll_append]
  cases s.readAll (piece.map String.toList) <;> rfl

theorem finish_cons (s : State) (argument : String) (line : List String) :
    s.finish (argument :: line) =
      match s.read argument.toList with
      | .error exit => .error exit
      | .ok t => t.finish line := by
  rw [← List.singleton_append, finish_append, List.map_singleton, readAll_singleton]

theorem finish_dashes (hopen : s.onlyProgram = false) (line : List String) :
    s.finish ("--" :: line) = { s with onlyProgram := true }.finish line := by
  rw [finish_cons, read_dashes hopen]

theorem finish_eq_ok {line : List String} {settings : Settings} (h : s.finish line = .ok settings) :
    ∃ t, s.readAll (line.map String.toList) = .ok t ∧ t.settings = .ok settings := by
  unfold finish at h
  split at h
  · cases h
  · next t hread => exact ⟨t, hread, h⟩

/-- The settings depend on what is there once the pending item is completed. -/
theorem settings_of_complete (h : s.complete = .ok t) : s.settings = t.settings := by
  have ht : t.complete = .ok t := complete_of_nothing (pending_of_complete h).1
  unfold settings
  rw [h, ht]

theorem settings_eq_ok {settings : Settings} (h : s.settings = .ok settings) :
    ∃ t, s.complete = .ok t ∧ t.settings = .ok settings := by
  cases hcomplete : s.complete with
  | error exit =>
    rw [State.settings, hcomplete] at h
    cases h
  | ok t => exact ⟨t, rfl, settings_of_complete hcomplete ▸ h⟩

/-- Where nothing is pending, the settings are what was read, and defaults for the rest. -/
theorem settings_of_nothing (h : t.pending = .nothing) {path : List Char}
    (hprogram : t.program = some path) :
    let unset := Settings.default (String.ofList path)
    t.settings =
      .ok
        { unset with
          rate := (t.values .rate).getD unset.rate
          scale := (t.values .scale).getD unset.scale
          seed := t.values .seed
          stackLimit := t.values .stackLimit
          normalizeShiftFlag := t.normalizeShiftFlag } := by
  rw [settings, complete_of_nothing h]
  dsimp only
  rw [hprogram]

/-- A program and nothing else. -/
theorem settings_of_program {path : String} {onlyProgram : Bool} (hpath : path ≠ "") :
    ({ pending := .program path.toList, onlyProgram } : State).settings = .ok (.default path) := by
  have hpath : path.toList ≠ [] := fun hnil => hpath (String.toList_eq_nil_iff.1 hnil)
  have hcomplete := complete_program (t := { onlyProgram }) rfl hpath
  rw [settings_of_complete hcomplete, settings_of_nothing rfl rfl, String.ofList_toList]
  rfl

/-! ### An option that is absent -/

section
variable {c : Change} {line : List String} {settings : Settings}

/-- What a change does to the settings. -/
theorem settings_change (h : s.settings = .ok settings) (hs : s.pendingName? ≠ some c.name) :
    (∀ option n, c = .number option (some n) →
        (s.change c).settings = .ok (settings.set option n)) ∧
      (c = .flag true →
        (s.change c).settings = .ok { settings with normalizeShiftFlag := true }) := by
  obtain ⟨t, hcomplete, hsettings⟩ := settings_eq_ok h
  have hnothing : t.pending = .nothing := (pending_of_complete hcomplete).1
  have hchange : (s.change c).complete = .ok (t.change c) := by
    rw [ignores_complete.change s c rfl hs, hcomplete]
    rfl
  rw [settings_of_complete hchange]
  cases hprogram : t.program with
  | none =>
    rw [State.settings, complete_of_nothing hnothing] at hsettings
    dsimp only at hsettings
    rw [hprogram] at hsettings
    cases hsettings
  | some path =>
    rw [settings_of_nothing hnothing hprogram] at hsettings
    cases hsettings
    refine ⟨fun option n hc => ?_, fun hc => ?_⟩ <;> subst hc <;>
      rw [settings_of_nothing (by exact hnothing) (by exact hprogram)]
    · cases option <;> rfl
    · rfl

/-- A change in front of a line on which the option is absent. -/
theorem finish_change (h : s.finish line = .ok settings) (hline : c.name.Absent line)
    (hs : s.pendingName? ≠ some c.name) :
    (∀ option n, c = .number option (some n) →
        (s.change c).finish line = .ok (settings.set option n)) ∧
      (c = .flag true →
        (s.change c).finish line = .ok { settings with normalizeShiftFlag := true }) := by
  obtain ⟨t, hread, hsettings⟩ := finish_eq_ok h
  obtain ⟨hchange, hpending⟩ := readAll_of_absent (.inr hline) hs
  have hfinish : (s.change c).finish line = (t.change c).settings := by
    unfold finish
    rw [hchange c rfl, hread]
    rfl
  rw [hfinish]
  exact settings_change hsettings (hpending t hread)

/-- A line on which the option is absent leaves what is kept about it. -/
theorem change_of_readAll (hread : s.readAll (line.map String.toList) = .ok t)
    (hline : c.name.Absent line) (hs : s.pendingName? ≠ some c.name) (hsame : s.change c = s) :
    t.change c = t ∧ t.pendingName? ≠ some c.name := by
  obtain ⟨hchange, hpending⟩ := readAll_of_absent (.inr hline) hs
  have hagain := hchange c rfl
  rw [hsame, hread] at hagain
  exact ⟨(Except.ok.inj hagain).symm, hpending t hread⟩

theorem change_of_complete (hcomplete : s.complete = .ok t) (hs : s.pendingName? ≠ some c.name)
    (hsame : s.change c = s) : t.change c = t := by
  have hagain := ignores_complete.change s c rfl hs
  rw [hsame, hcomplete] at hagain
  exact (Except.ok.inj hagain).symm

end

/-! ### An option that is left pending -/

/-- Storing a value, if the option has none yet. -/
theorem store_of_none {option : NumberOption} (h : t.values option = none) (text : List Char) :
    t.store option text =
      match option.value? text with
      | none => .error .badValue
      | some n => .ok (t.change (.number option (some n))) := by
  unfold store
  rw [h, if_neg (by decide)]
  rfl

/-- Storing a value has nothing to do with the end of the options. -/
theorem store_onlyProgram (s : State) (option : NumberOption) (text : List Char) :
    { s with onlyProgram := true }.store option text =
      (s.store option text).map ({ · with onlyProgram := true }) := by
  unfold store
  dsimp only
  split
  · rfl
  · cases option.value? text <;> rfl

/-- With the option and its value pending, this way of reading starts by storing the value. -/
def Completes (s : State) (option : NumberOption) (text : List Char)
    (f : State → Except Exit State) : Prop :=
  f { s with pending := .option option (some text) } =
    match s.store option text with
    | .error exit => .error exit
    | .ok t => f t

section
variable {option : NumberOption} {text : List Char}

theorem Completes.congr {f g : State → Except Exit State} (h : s.Completes option text f)
    (hpending : g { s with pending := .option option (some text) } =
      f { s with pending := .option option (some text) })
    (hstored : ∀ t, s.store option text = .ok t → g t = f t) : s.Completes option text g := by
  refine hpending.trans (h.trans ?_)
  cases hstore : s.store option text with
  | error exit => rfl
  | ok t => exact (hstored t hstore).symm

variable (hnothing : s.pending = .nothing)
include hnothing

/-- What starts by completing the pending item starts by storing the value. -/
theorem completes_of_complete (g : State → Except Exit State) :
    s.Completes option text fun s =>
      match s.complete with
      | .error exit => .error exit
      | .ok t => g t := by
  unfold Completes
  dsimp only
  rw [complete_option hnothing]
  cases hstore : s.store option text with
  | error exit => rfl
  | ok t =>
    dsimp only
    rw [complete_of_nothing ((pending_of_store hstore).1.trans hnothing)]

theorem completes_readNumber (option' : NumberOption) (text' : Option (List Char)) :
    s.Completes option text (readNumber · option' text') :=
  completes_of_complete hnothing _

theorem completes_readSwitch (switch : Switch) : s.Completes option text (readSwitch · switch) :=
  completes_of_complete hnothing _

theorem completes_readProgram {path : List Char} (hread : s.readProgram path = .ok t) :
    s.Completes option text (readProgram · path) := by
  have hfirst : s.hasProgram = false := by
    cases hprogram : s.hasProgram with
    | false => rfl
    | true =>
      rw [readProgram, hprogram] at hread
      cases hread
  -- neither the option nor storing its value makes a program of it
  have hform : ∀ u : State, u.hasProgram = false → u.readProgram path =
      match u.complete with
      | .error exit => .error exit
      | .ok t => .ok { t with pending := .program path } := fun u hu => by
    rw [readProgram, hu]
    rfl
  refine (completes_of_complete hnothing _).congr (hform _ ?_) fun t hstore => hform t ?_
  · unfold hasProgram at hfirst ⊢
    rwa [hnothing] at hfirst
  · obtain ⟨hpending, -, hprogram⟩ := pending_of_store hstore
    unfold hasProgram at hfirst ⊢
    rwa [hpending, hprogram]

theorem completes_readLong {text' : List Char} (hread : s.readLong text' = .ok t) :
    s.Completes option text (readLong · text') := by
  unfold readLong at hread ⊢
  generalize OptionName.ofLong? (text'.takeWhile (· ≠ '=')) = lookup at hread ⊢
  generalize text'.dropWhile (· ≠ '=') = rest at hread ⊢
  cases lookup with
  | none => cases hread
  | some found =>
    cases found with
    | number option' => exact completes_readNumber hnothing option' _
    | switch switch =>
      cases rest with
      | nil => exact completes_readSwitch hnothing switch
      | cons => cases hread

theorem completes_readShort {letter : Char} {rest : List Char}
    (hread : s.readShort letter rest = .ok t) :
    s.Completes option text (readShort · letter rest) := by
  unfold readShort at hread ⊢
  generalize OptionName.ofShort? letter = lookup at hread ⊢
  cases lookup with
  | none => cases hread
  | some found =>
    cases found with
    | number option' => exact completes_readNumber hnothing option' _
    | switch switch => exact completes_readSwitch hnothing switch

theorem completes_readPlain {text' : List Char} (hread : s.readPlain text' = .ok t) :
    s.Completes option text (readPlain · text') := by
  -- no option waits for its value, so this is the program
  have hprogram : ∀ u : State, (∀ option, u.pending ≠ .option option none) →
      u.readPlain text' = u.readProgram text' := by
    intro u hu
    unfold readPlain
    split
    · next option hwaits => exact absurd hwaits (hu option)
    · rfl
  rw [hprogram s fun option => by rw [hnothing]; nofun] at hread
  refine (completes_readProgram hnothing hread).congr (hprogram _ nofun) fun t hstore =>
    hprogram t fun option => ?_
  rw [(pending_of_store hstore).1, hnothing]
  nofun

/-- An argument that is accepted where nothing is pending completes what is pending, unless it ends
the options. -/
theorem completes_read {argument : List Char} (hread : s.read argument = .ok t)
    (hend : s.onlyProgram = true ∨ argument ≠ ['-', '-']) :
    s.Completes option text (read · argument) := by
  have honly : ∀ t, s.store option text = .ok t → t.onlyProgram = s.onlyProgram :=
    fun t hstore => (pending_of_store hstore).2.1
  cases hopen : s.onlyProgram with
  | true =>
    have hprogram : ∀ u : State, u.onlyProgram = true → u.read argument = u.readProgram argument :=
      fun u hu => if_pos hu
    exact (completes_readProgram hnothing (hprogram s hopen ▸ hread)).congr (hprogram _ hopen)
      fun t hstore => hprogram t ((honly t hstore).trans hopen)
  | false =>
    have hargument := hend.resolve_left (by rw [hopen]; decide)
    refine Completes.congr ?_ (read_of_open (by exact hopen) argument)
      fun t hstore => read_of_open ((honly t hstore).trans hopen) argument
    rw [read_of_open hopen] at hread
    split at hread
    · exact absurd rfl hargument
    · exact completes_readLong hnothing hread
    · exact completes_readShort hnothing hread
    · exact completes_readPlain hnothing hread

/-- With an option pending, a line that is accepted without it goes on as if its value were stored
first. -/
theorem finish_of_pending {line : List String} {settings : Settings}
    (h : s.finish line = .ok settings) :
    { s with pending := .option option (some text) }.finish line =
      match s.store option text with
      | .error exit => .error exit
      | .ok t => t.finish line := by
  -- Only the end of the options leaves the option pending, and what follows it then is read by the
  -- induction hypothesis. Every other argument, and the end of the line, stores the value first.
  induction line generalizing s with
  | nil =>
    show State.settings _ = _
    have hcomplete := complete_option hnothing option text
    cases hstore : s.store option text with
    | error exit => rw [State.settings, hcomplete, hstore]
    | ok t => exact settings_of_complete (hcomplete.trans hstore)
  | cons argument line ih =>
    rw [finish_cons] at h
    cases hread : s.read argument.toList with
    | error exit =>
      rw [hread] at h
      cases h
    | ok u =>
      rw [hread] at h
      by_cases hend : s.onlyProgram = true ∨ argument ≠ "--"
      · have hcompletes :
            { s with pending := .option option (some text) }.read argument.toList = _ :=
          completes_read hnothing hread
            (hend.imp_right fun hne hsame => hne (String.toList_inj.1 hsame))
        rw [finish_cons, hcompletes]
        cases s.store option text with
        | error exit => rfl
        | ok t => exact (t.finish_cons argument line).symm
      · -- the end of the options leaves it pending
        obtain ⟨hopen, hdashes⟩ := not_or.1 hend
        have hopen : s.onlyProgram = false := Bool.eq_false_iff.2 hopen
        obtain rfl : argument = "--" := not_not.1 hdashes
        cases hread.symm.trans (read_dashes hopen)
        have hrest := ih (s := { s with onlyProgram := true }) hnothing h
        refine (finish_dashes (by exact hopen) line).trans (hrest.trans ?_)
        rw [store_onlyProgram]
        cases hstore : s.store option text with
        | error exit => rfl
        | ok t => exact (finish_dashes ((pending_of_store hstore).2.1.trans hopen) line).symm

omit hnothing in
/-- An option with a number, however it is written, stores its number before the rest of the line is
read. -/
theorem finish_spelled {text : String} {piece line : List String} {settings : Settings}
    (h : s.complete = .ok t) (hopen : s.onlyProgram = false) (hvalue : IsValue text)
    (hspelled : option.Spelled text piece) (haccepted : t.finish line = .ok settings) :
    s.finish (piece ++ line) =
      match t.store option text.toList with
      | .error exit => .error exit
      | .ok u => u.finish line := by
  rw [finish_append]
  rcases readAll_spelled h hopen hvalue hspelled with hread | hread
  · rw [hread]
    exact finish_of_pending (pending_of_complete h).1 haccepted
  · rw [hread]

end

/-! ### Numbers are in their ranges -/

/-- What was read so far can be used: numbers are in the ranges of their options, and the path of
the program is not empty. -/
structure Sound (s : State) : Prop where
  values : ∀ option n, s.values option = some n → (Item.number option n).InRange
  program : ∀ path, s.program = some path → path ≠ []

theorem sound_start : ({} : State).Sound where
  values _ _ h := by cases h
  program _ h := by cases h

theorem Sound.store (h : s.Sound) {option : NumberOption} {text : List Char}
    (hstore : s.store option text = .ok t) : t.Sound := by
  unfold State.store at hstore
  split at hstore
  · cases hstore
  · split at hstore
    · cases hstore
    · next n hvalue =>
      cases hstore
      have hrange : option.declaration.least ≤ n ∧ n ≤ option.declaration.greatest :=
        of_decide_eq_true (Option.filter_eq_some_iff.1 hvalue).2
      -- the new number was checked just now, the others when they were stored
      refine ⟨fun o k hk => ?_, h.program⟩
      dsimp only at hk
      split at hk
      · next ho =>
        cases hk
        rwa [ho]
      · exact h.values o k hk

theorem Sound.complete (h : s.Sound) (hcomplete : s.complete = .ok t) : t.Sound := by
  have hrest : { s with pending := .nothing }.Sound := ⟨h.values, h.program⟩
  unfold State.complete at hcomplete
  dsimp only at hcomplete
  split at hcomplete
  · cases hcomplete
    exact hrest
  · cases hcomplete
  · exact hrest.store hcomplete
  · -- a path is checked here and nowhere else
    split at hcomplete
    · cases hcomplete
    · next path _ hpath =>
      cases hcomplete
      refine ⟨h.values, fun path' hpath' => ?_⟩
      cases hpath'
      simpa using hpath

theorem Sound.readProgram (h : s.Sound) {path : List Char}
    (hread : s.readProgram path = .ok t) : t.Sound := by
  unfold State.readProgram at hread
  split at hread
  · cases hread
  · split at hread
    · cases hread
    · next hcomplete =>
      cases hread
      have hcompleted := h.complete hcomplete
      exact ⟨hcompleted.values, hcompleted.program⟩

theorem Sound.readNumber (h : s.Sound) {option : NumberOption} {text : Option (List Char)}
    (hread : s.readNumber option text = .ok t) : t.Sound := by
  unfold State.readNumber at hread
  split at hread
  · cases hread
  · next hcomplete =>
    have hcompleted := h.complete hcomplete
    split at hread
    · cases hread
      exact ⟨hcompleted.values, hcompleted.program⟩
    · exact hcompleted.store hread

theorem Sound.readSwitch (h : s.Sound) {switch : Switch}
    (hread : s.readSwitch switch = .ok t) : t.Sound := by
  unfold State.readSwitch at hread
  split at hread
  · cases hread
  · next hcomplete =>
    have hcompleted := h.complete hcomplete
    split at hread
    · cases hread
    · cases hread
    · split at hread
      · cases hread
      · cases hread
        exact ⟨hcompleted.values, hcompleted.program⟩

theorem Sound.readLong (h : s.Sound) {text : List Char} (hread : s.readLong text = .ok t) :
    t.Sound := by
  unfold State.readLong at hread
  dsimp only at hread
  split at hread
  · cases hread
  · exact h.readNumber hread
  · cases hread
  · exact h.readSwitch hread

theorem Sound.readShort (h : s.Sound) {letter : Char} {rest : List Char}
    (hread : s.readShort letter rest = .ok t) : t.Sound := by
  unfold State.readShort at hread
  split at hread
  · cases hread
  · exact h.readSwitch hread
  · exact h.readNumber hread

theorem Sound.readPlain (h : s.Sound) {text : List Char} (hread : s.readPlain text = .ok t) :
    t.Sound := by
  unfold State.readPlain at hread
  split at hread
  · -- the text goes to the option that waits for it, and is not looked at yet
    cases hread
    exact ⟨h.values, h.program⟩
  · exact h.readProgram hread

/-- Reading an argument keeps the state sound, whatever the argument is. -/
theorem Sound.read (h : s.Sound) {argument : List Char} (hread : s.read argument = .ok t) :
    t.Sound := by
  unfold State.read at hread
  split at hread
  · exact h.readProgram hread
  · split at hread
    · cases hread
      exact ⟨h.values, h.program⟩
    · exact h.readLong hread
    · exact h.readShort hread
    · exact h.readPlain hread

theorem Sound.readAll (h : s.Sound) {arguments : List (List Char)}
    (hread : s.readAll arguments = .ok t) : t.Sound := by
  induction arguments generalizing s with
  | nil =>
    cases hread
    exact h
  | cons argument arguments ih =>
    rw [State.readAll] at hread
    split at hread
    · cases hread
    · next hfirst => exact ih (h.read hfirst) hread

/-- The settings can be used, whether they were given or are defaults. -/
theorem Sound.of_settings (h : s.Sound) {settings : Settings}
    (hsettings : s.settings = .ok settings) :
    settings.program ≠ "" ∧
      ∀ option n, settings.value option = some n → (Item.number option n).InRange := by
  obtain ⟨t, hcomplete, hready⟩ := settings_eq_ok hsettings
  have hsound : t.Sound := h.complete hcomplete
  have hnothing : t.pending = .nothing := (pending_of_complete hcomplete).1
  cases hprogram : t.program with
  | none =>
    rw [State.settings, complete_of_nothing hnothing] at hready
    dsimp only at hready
    rw [hprogram] at hready
    cases hready
  | some path =>
    rw [settings_of_nothing hnothing hprogram] at hready
    cases hready
    refine ⟨fun hempty => hsound.program path hprogram ?_, fun option n hvalue => ?_⟩
    · rw [← String.toList_ofList (l := path), String.toList_eq_nil_iff]
      exact hempty
    · -- a number was given, or it is the default
      cases hgiven : t.values option with
      | some given =>
        have hsame : given = n := by cases option <;> simp_all [Settings.value]
        exact hsame ▸ hsound.values option given hgiven
      | none =>
        cases option <;> simp only [Settings.value, hgiven, Option.getD_none] at hvalue <;>
          cases hvalue
        · exact (by decide : 1 ≤ Timestep.defaultRate ∧ Timestep.defaultRate ≤ Timestep.maxRate)
        · exact (by decide : 1 ≤ defaultScale ∧ defaultScale ≤ UInt32.size - 1)

end State

/-! ### The rules -/

section
variable {line piece : List String} {settings : Settings} {occurrence : Occurrence}

theorem parse_eq_finish (arguments : List String) :
    parse arguments = ({} : State).finish arguments :=
  rfl

/-- An option in front of a line that is accepted without it. -/
theorem parse_before (haccepted : parse line = .ok settings)
    (hnew : occurrence.name.Absent line) (hwritten : occurrence.Written piece) :
    parse (piece ++ line) = occurrence.addTo settings := by
  rw [parse_eq_finish] at haccepted ⊢
  have hstart : ({} : State).complete = .ok {} := rfl
  cases hwritten with
  | @number option text _ hvalue hspelled =>
    rw [State.finish_spelled hstart rfl hvalue hspelled haccepted, State.store_of_none rfl,
      Occurrence.addTo]
    cases option.value? text.toList with
    | none => rfl
    | some n =>
      exact (State.finish_change (c := .number option (some n)) haccepted hnew nofun).1 option n rfl
  | normalizeShiftFlag =>
    have hread : ({} : State).read (OptionName.switch .normalizeShiftFlag).inFull.toList =
        .ok (({} : State).change (.flag true)) := State.read_normalizeShiftFlag rfl
    rw [List.singleton_append, State.finish_cons, hread]
    exact (State.finish_change (c := .flag true) haccepted hnew nofun).2 rfl

/-- What a line without an option leaves for it: nothing was given, and more may follow. -/
theorem exists_state_of_absent (haccepted : parse line = .ok settings) {c : State.Change}
    (hline : c.name.Absent line) (hopen : "--" ∉ line) (hstart : ({} : State).change c = {}) :
    ∃ s t, ({} : State).readAll (line.map String.toList) = .ok s ∧ s.onlyProgram = false ∧
      s.complete = .ok t ∧ t.change c = t ∧ t.pending = .nothing ∧ t.settings = .ok settings := by
  obtain ⟨s, hread, hsettings⟩ := State.finish_eq_ok haccepted
  obtain ⟨hsame, hpending⟩ := State.change_of_readAll hread hline nofun hstart
  obtain ⟨t, hcomplete, hready⟩ := State.settings_eq_ok hsettings
  exact ⟨s, t, hread, State.onlyProgram_of_readAll hopen hline hread, hcomplete,
    State.change_of_complete hcomplete hpending hsame, (State.pending_of_complete hcomplete).1,
    hready⟩

/-- An option with a number, behind a line that is accepted without it. -/
theorem parse_number_behind {option : NumberOption} {text : String}
    (haccepted : parse line = .ok settings) (hnew : (OptionName.number option).Absent line)
    (hopen : "--" ∉ line) (hvalue : IsValue text) (hspelled : option.Spelled text piece) :
    parse (line ++ piece) = (Occurrence.number option text).addTo settings := by
  have hstart : ({} : State).change (.number option none) = {} := by
    unfold State.change
    simp only [ite_self]
  obtain ⟨s, t, hread, hopen, hcomplete, hsame, hnothing, hready⟩ :=
    exists_state_of_absent (c := .number option none) haccepted hnew hopen hstart
  have hnone : t.values option = none := by
    rw [← hsame]
    exact if_pos rfl
  -- the option stands in front of the end of the line, where the settings are ready
  have hfinish : s.finish (piece ++ []) = _ :=
    State.finish_spelled hcomplete hopen hvalue hspelled hready
  rw [parse_eq_finish, State.finish_append, hread]
  dsimp only
  rw [← List.append_nil piece, hfinish, State.store_of_none hnone, Occurrence.addTo]
  cases option.value? text.toList with
  | none => rfl
  | some n =>
    exact (State.settings_change (c := .number option (some n)) hready
      (State.pendingName?_ne hnothing)).1 option n rfl

/-- The switch, behind a line that is accepted without it. -/
theorem parse_switch_behind (haccepted : parse line = .ok settings)
    (hnew : (OptionName.switch .normalizeShiftFlag).Absent line) (hopen : "--" ∉ line) :
    parse (line ++ [(OptionName.switch .normalizeShiftFlag).inFull]) =
      Occurrence.normalizeShiftFlag.addTo settings := by
  obtain ⟨s, t, hread, hopen, hcomplete, hsame, hnothing, hready⟩ :=
    exists_state_of_absent (c := .flag false) haccepted hnew hopen rfl
  have hflag : t.normalizeShiftFlag = false := by
    rw [← hsame]
    rfl
  -- the switch completes what the line has left pending
  have hswitch : s.read (OptionName.switch .normalizeShiftFlag).inFull.toList =
      .ok (t.change (.flag true)) := by
    rw [State.read_normalizeShiftFlag hopen, State.readSwitch, hcomplete]
    dsimp only
    rw [hflag]
    rfl
  rw [parse_eq_finish, State.finish_append, hread]
  dsimp only
  rw [State.finish_cons, hswitch]
  exact (State.settings_change (c := .flag true) hready (State.pendingName?_ne hnothing)).2 rfl

/-- An option behind a line that is accepted without it. -/
theorem parse_behind (haccepted : parse line = .ok settings)
    (hnew : occurrence.name.Absent line) (hopen : "--" ∉ line)
    (hwritten : occurrence.Written piece) :
    parse (line ++ piece) = occurrence.addTo settings := by
  cases hwritten with
  | number hvalue hspelled => exact parse_number_behind haccepted hnew hopen hvalue hspelled
  | normalizeShiftFlag => exact parse_switch_behind haccepted hnew hopen

end

/-- The parser keeps to what is documented. -/
theorem documented_parse : Documented parse where
  program {path} hplain := by
    have hstart : ({} : State).complete = .ok {} := rfl
    have hwaits : ∀ option, Pending.nothing ≠ .option option none := fun _ => nofun
    rw [parse_eq_finish, State.finish_cons, State.read_program rfl hwaits hplain,
      State.readProgram_of_complete hstart rfl]
    exact State.settings_of_program hplain.1
  escaped {path} hpath := by
    rw [parse_eq_finish, State.finish_dashes rfl, State.finish_cons]
    exact State.settings_of_program hpath
  before := parse_before
  behind := parse_behind
  inRange {line settings} haccepted option n hvalue := by
    obtain ⟨s, hread, hsettings⟩ := State.finish_eq_ok haccepted
    exact ((State.sound_start.readAll hread).of_settings hsettings).2 option n hvalue
  path {line settings} haccepted := by
    obtain ⟨s, hread, hsettings⟩ := State.finish_eq_ok haccepted
    exact ((State.sound_start.readAll hread).of_settings hsettings).1

end ChipEight.CommandLine
