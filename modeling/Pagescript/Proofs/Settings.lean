import Mathlib
import Pagescript.Proofs.Paths
import Pagescript.Proofs.Stepwise
import Pagescript.Proofs.Tables
/-!
# Layers of a configuration

A setting is given by the last variable of the environment that is named for it, or else by the table
of a document, or else by its default.  The value that is chosen in this way is all that counts: the
configuration has what each chosen value reads as, and there is none only if a chosen value cannot be
read.  A configuration written out as settings reads back as itself.
-/

namespace Pagescript

/-! ### Layers of entries -/

namespace Entries

variable {α : Type}

/-- The last entry under a name is the one that a batch binds it to. -/
theorem get?_update_of_last {before after : Entries α} {key : String} {v : α}
    (hafter : ∀ entry ∈ after, entry.1 ≠ key) (entries : Entries α) :
    get? (update entries (before ++ (key, v) :: after)) key = some v := by
  have hsplit : update entries (before ++ (key, v) :: after) =
      update (insert (update entries before) key v) after := by
    rw [update, List.foldl_append, List.foldl_cons]
    rfl
  rw [hsplit, get?_update_of_not_mem hafter, get?_insert, if_pos rfl]

/-- What a batch binds counts before what was bound already. -/
theorem get?_update (entries batch : Entries α) (key : String) :
    get? (update entries batch) key = (get? (ofList batch) key).or (get? entries key) := by
  induction batch using List.reverseRecOn with
  | nil => rfl
  | append_singleton batch entry ih =>
      have hlast (entries : Entries α) : update entries (batch ++ [entry]) =
          insert (update entries batch) entry.1 entry.2 := by
        rw [update, List.foldl_append]
        rfl
      rw [ofList, hlast, hlast, get?_insert, get?_insert]
      split
      · rfl
      · exact ih

theorem get?_ofList_append (entries batch : Entries α) (key : String) :
    get? (ofList (entries ++ batch)) key = (get? (ofList batch) key).or (get? (ofList entries) key) := by
  rw [ofList, update, List.foldl_append]
  exact get?_update _ batch key

theorem ofList_ofList (entries : Entries α) : ofList (ofList entries) = ofList entries :=
  ofList_of_nodup (nodup_ofList entries)

end Entries

/-! ### Names of variables -/

theorem Json.after?_eq_some_iff {word cs rest : List Char} :
    after? word cs = some rest ↔ cs = word ++ rest := by
  induction word generalizing cs with
  | nil => simp [after?]
  | cons w word ih =>
      cases cs with
      | nil => simp [after?]
      | cons c cs =>
          rw [after?, List.cons_append, List.cons.injEq]
          by_cases hw : w = c
          · simp [hw, ih]
          · simp [hw, Ne.symm hw]

namespace Text

/-- The Kelvin sign is the only character besides the capital letters that is changed. -/
theorem lowerChar_eq_toLower {c : Char} (hc : c ≠ '\u212a') : lowerChar c = c.toLower := by
  have hcode : c.toNat ≠ 0x212a := fun h => hc (Char.toNat_inj.1 h)
  by_cases hcapital : c.val ≥ 'A'.val ∧ c.val ≤ 'Z'.val
  · have hupper : c.toNat ≤ 90 := hcapital.2
    have hvalid : (c.toNat + 32).isValidChar := .inl (by omega)
    have hsum : (c.val + 32).toNat = c.toNat + 32 := by
      rw [UInt32.toNat_add]
      exact Nat.mod_eq_of_lt (by change c.toNat + 32 < _; omega)
    rw [lowerChar, if_pos (by simpa [Char.le_def] using hcapital), Char.toLower, dif_pos hcapital]
    apply Char.toNat_inj.1
    rw [Char.toNat_ofNat, if_pos hvalid]
    exact hsum.symm
  · rw [lowerChar, if_neg (by simpa [Char.le_def] using hcapital), if_neg hcode, Char.toLower,
      dif_neg hcapital]

theorem lowerChar_eq_iff {c d : Char} (hd : d ≠ 'k' ∧ d ≠ '\u212a') :
    lowerChar c = d ↔ c.toLower = d := by
  by_cases hc : c = '\u212a'
  · subst hc
    have hlower : lowerChar '\u212a' = 'k' := by decide
    have hsame : '\u212a'.toLower = '\u212a' := by decide
    rw [hlower, hsame]
    exact iff_of_false hd.1.symm hd.2.symm
  · rw [lowerChar_eq_toLower hc]

theorem lower_eq_iff {name key : String} (hkey : ∀ c ∈ key.toList, c ≠ 'k' ∧ c ≠ '\u212a') :
    lower name = key ↔ name.toLower = key := by
  have hchars (cs ds : List Char) (hds : ∀ d ∈ ds, d ≠ 'k' ∧ d ≠ '\u212a') :
      cs.map lowerChar = ds ↔ cs.map Char.toLower = ds := by
    induction cs generalizing ds with
    | nil => rfl
    | cons c cs ih =>
        cases ds with
        | nil => simp
        | cons d ds =>
            rw [List.map_cons, List.map_cons, List.cons.injEq, List.cons.injEq,
              lowerChar_eq_iff (hds d List.mem_cons_self),
              ih ds fun e he => hds e (List.mem_cons_of_mem d he)]
  rw [← String.toList_inj, ← String.toList_inj, lower, String.toList_ofList, String.toLower,
    String.toList_map]
  exact hchars name.toList key.toList hkey

end Text

/-! ### Settings -/

/-- What a configuration consists of, in the order in which it is read. -/
inductive Setting where
  | timeout
  | actionTimeout
  | navigationTimeout
  | waitTimeout
  | maxDepth
  | maxSourceLength
  | headless
  | address
  | logRoot
  deriving DecidableEq, Repr

namespace Setting

def all : List Setting :=
  [.timeout, .actionTimeout, .navigationTimeout, .waitTimeout, .maxDepth, .maxSourceLength,
    .headless, .address, .logRoot]

/-- The name of a setting in a document. -/
def key : Setting → String
  | .timeout => "timeout_s"
  | .actionTimeout => "action_timeout_ms"
  | .navigationTimeout => "navigation_timeout_ms"
  | .waitTimeout => "wait_timeout_ms"
  | .maxDepth => "max_depth"
  | .maxSourceLength => "max_source_length"
  | .headless => "headless"
  | .address => "cdp_url"
  | .logRoot => "log_root"

/-- What a configuration has for a setting. -/
abbrev Content : Setting → Type
  | .timeout => Option Binary64
  | .headless => Bool
  | .address => Option String
  | .logRoot => Path
  | .actionTimeout | .navigationTimeout | .waitTimeout | .maxDepth | .maxSourceLength => Int

/-- What a value reads as if it is given for a setting. -/
def read : (s : Setting) → Value → Except ConfigError s.Content
  | .timeout => Config.timeoutOf
  | .headless => Config.flagOf
  | .address => Config.addressOf
  | .logRoot => Config.pathOf
  | .actionTimeout | .navigationTimeout | .waitTimeout | .maxDepth | .maxSourceLength =>
    Config.whole

/-- What is written for a setting: nothing for what there is not, a path as its text. -/
def write : (s : Setting) → s.Content → Value
  | .timeout => fun seconds => seconds.elim .null .float
  | .headless => .bool
  | .address => fun address => address.elim .null .text
  | .logRoot => fun path => .text path.toString
  | .actionTimeout | .navigationTimeout | .waitTimeout | .maxDepth | .maxSourceLength => .int

/-- The names of the variables for a setting: its own after the mark, in any letter case. -/
def Names (s : Setting) (label : String) : Prop :=
  ∃ name, label = Config.variableMark ++ name ∧ name.toLower = s.key

/-- The value that counts for a setting. -/
inductive Chosen (environment : Entries String) (table : Fields) (s : Setting) : Value → Prop where
  /-- The last variable for the setting. -/
  | fromEnvironment {before after : Entries String} {label text : String}
      (henvironment : environment = before ++ (label, text) :: after) (hlabel : s.Names label)
      (hlast : ∀ entry ∈ after, ¬ s.Names entry.1) : Chosen environment table s (.text text)
  /-- What the table says, if there is no such variable. -/
  | fromTable {v : Value} (hnone : ∀ entry ∈ environment, ¬ s.Names entry.1)
      (hentry : Entries.get? table s.key = some v) : Chosen environment table s v
  /-- The default, if the table says nothing either. -/
  | byDefault {v : Value} (hnone : ∀ entry ∈ environment, ¬ s.Names entry.1)
      (hentry : Entries.get? table s.key = none)
      (hdefault : Entries.get? Config.defaults s.key = some v) : Chosen environment table s v

theorem contains_defaults (s : Setting) : Entries.contains Config.defaults s.key = true := by
  cases s <;> decide

theorem variableSetting?_eq_some_iff {s : Setting} {label : String} :
    Config.variableSetting? label = some s.key ↔ s.Names label := by
  have hplain : ∀ c ∈ s.key.toList, c ≠ 'k' ∧ c ≠ '\u212a' := by
    cases s <;> simp [key]
  constructor
  · intro hlabel
    unfold Config.variableSetting? at hlabel
    split at hlabel
    next rest hrest =>
      simp only [Option.ite_none_right_eq_some, Option.some.injEq] at hlabel
      refine ⟨String.ofList rest, ?_, (Text.lower_eq_iff hplain).1 hlabel.2⟩
      apply String.toList_inj.1
      simpa using Json.after?_eq_some_iff.1 hrest
    · cases hlabel
  · rintro ⟨name, rfl, hname⟩
    have hrest : Json.after? Config.variableMark.toList (Config.variableMark ++ name).toList =
        some name.toList := by
      rw [Json.after?_eq_some_iff, String.toList_append]
    rw [Config.variableSetting?, hrest]
    simp only [String.ofList_toList, (Text.lower_eq_iff hplain).2 hname, contains_defaults, if_true]

/-! ### The value that counts -/

variable {environment environment' : Entries String} {table table' : Fields} {s : Setting} {v : Value}

theorem ne_of_mem_variables (hnone : ∀ entry ∈ environment, ¬ s.Names entry.1)
    {binding : String × Value} (hbinding : binding ∈ environment.filterMap fun (label, s) =>
      (Config.variableSetting? label).map fun name => (name, Value.text s)) :
    binding.1 ≠ s.key := by
  obtain ⟨⟨label, text⟩, hentry, hmade⟩ := List.mem_filterMap.1 hbinding
  obtain ⟨name, hname, rfl⟩ := Option.map_eq_some_iff.1 hmade
  rintro rfl
  exact hnone _ hentry (variableSetting?_eq_some_iff.1 hname)

theorem get?_layers (environment : Entries String) (table : Fields) (key : String) :
    Entries.get? (Entries.update table (Config.ofEnvironment environment)) key =
      (Entries.get? (Config.ofEnvironment environment) key).or (Entries.get? table key) := by
  rw [Entries.get?_update, Config.ofEnvironment, Entries.ofList_ofList]

theorem get?_ofEnvironment_append (before after : Entries String) (key : String) :
    Entries.get? (Config.ofEnvironment (before ++ after)) key =
      (Entries.get? (Config.ofEnvironment after) key).or
        (Entries.get? (Config.ofEnvironment before) key) := by
  rw [Config.ofEnvironment, List.filterMap_append, Entries.get?_ofList_append]
  rfl

theorem get?_ofEnvironment_of_last {before after : Entries String} {label text : String}
    (hlabel : s.Names label) (hlast : ∀ entry ∈ after, ¬ s.Names entry.1) :
    Entries.get? (Config.ofEnvironment (before ++ (label, text) :: after)) s.key =
      some (.text text) := by
  have hmade : (Config.variableSetting? label).map (fun name => (name, Value.text text)) =
      some (s.key, .text text) := by
    rw [variableSetting?_eq_some_iff.2 hlabel]
    rfl
  rw [Config.ofEnvironment, List.filterMap_append, List.filterMap_cons]
  simp only [hmade]
  exact Entries.get?_update_of_last (fun _ hentry => ne_of_mem_variables hlast hentry) []

theorem get?_ofEnvironment_of_none (hnone : ∀ entry ∈ environment, ¬ s.Names entry.1) :
    Entries.get? (Config.ofEnvironment environment) s.key = none :=
  Entries.get?_update_of_not_mem (fun _ hentry => ne_of_mem_variables hnone hentry) []

theorem Chosen.setting_eq (hv : s.Chosen environment table v) :
    Config.setting (Entries.update table (Config.ofEnvironment environment)) s.key = v := by
  rw [Config.setting, get?_layers]
  cases hv with
  | fromEnvironment henvironment hlabel hlast =>
      rw [henvironment, get?_ofEnvironment_of_last hlabel hlast]
      rfl
  | fromTable hnone hentry =>
      rw [get?_ofEnvironment_of_none hnone, hentry]
      rfl
  | byDefault hnone hentry hdefault =>
      rw [get?_ofEnvironment_of_none hnone, hentry, hdefault]
      rfl

theorem exists_chosen (environment : Entries String) (table : Fields) (s : Setting) :
    ∃ v, s.Chosen environment table v := by
  -- The first variable counts only if none behind it is for the setting.
  induction environment with
  | nil =>
      have hnone : ∀ entry ∈ ([] : Entries String), ¬ s.Names entry.1 := by simp
      cases hentry : Entries.get? table s.key with
      | some v => exact ⟨v, .fromTable hnone hentry⟩
      | none =>
          obtain ⟨v, hdefault⟩ := Entries.contains_iff.1 s.contains_defaults
          exact ⟨v, .byDefault hnone hentry hdefault⟩
  | cons first rest ih =>
      obtain ⟨v, hv⟩ := ih
      have hbehind (hfirst : s.Names first.1) (hrest : ∀ entry ∈ rest, ¬ s.Names entry.1) :
          s.Chosen (first :: rest) table (.text first.2) :=
        .fromEnvironment (List.nil_append (first :: rest)).symm hfirst hrest
      have hall (hfirst : ¬ s.Names first.1) (hrest : ∀ entry ∈ rest, ¬ s.Names entry.1) :
          ∀ entry ∈ first :: rest, ¬ s.Names entry.1 :=
        List.forall_mem_cons.2 ⟨hfirst, hrest⟩
      cases hv with
      | @fromEnvironment before after label text henvironment hlabel hlast =>
          have hmore : first :: rest = (first :: before) ++ (label, text) :: after :=
            congrArg (first :: ·) henvironment
          exact ⟨_, .fromEnvironment hmore hlabel hlast⟩
      | fromTable hnone hentry =>
          by_cases hfirst : s.Names first.1
          · exact ⟨_, hbehind hfirst hnone⟩
          · exact ⟨v, .fromTable (hall hfirst hnone) hentry⟩
      | byDefault hnone hentry hdefault =>
          by_cases hfirst : s.Names first.1
          · exact ⟨_, hbehind hfirst hnone⟩
          · exact ⟨v, .byDefault (hall hfirst hnone) hentry hdefault⟩

theorem chosen_iff : s.Chosen environment table v ↔
    Config.setting (Entries.update table (Config.ofEnvironment environment)) s.key = v := by
  refine ⟨Chosen.setting_eq, fun hsetting => ?_⟩
  obtain ⟨w, hw⟩ := exists_chosen environment table s
  rwa [← hsetting, hw.setting_eq]

/-! ### What does not count -/

theorem exists_get?_ofEnvironment (hnamed : ∃ entry ∈ environment, s.Names entry.1) :
    ∃ v, Entries.get? (Config.ofEnvironment environment) s.key = some v := by
  obtain ⟨entry, hentry, hlabel⟩ := hnamed
  obtain ⟨v, hv⟩ := exists_chosen environment [] s
  cases hv with
  | fromEnvironment henvironment hlabel hlast =>
      exact ⟨_, henvironment ▸ get?_ofEnvironment_of_last hlabel hlast⟩
  | fromTable hnone | byDefault hnone => exact absurd hlabel (hnone entry hentry)

/-- A variable that is not the last one for a setting does not count for it. -/
theorem chosen_append_iff {before after : Entries String} {entry : String × String}
    (hentry : s.Names entry.1 → ∃ later ∈ after, s.Names later.1) :
    s.Chosen (before ++ entry :: after) table v ↔ s.Chosen (before ++ after) table v := by
  have hafter : Entries.get? (Config.ofEnvironment (entry :: after)) s.key =
      Entries.get? (Config.ofEnvironment after) s.key := by
    rw [← List.singleton_append, get?_ofEnvironment_append]
    by_cases hlabel : s.Names entry.1
    · obtain ⟨w, hw⟩ := exists_get?_ofEnvironment (hentry hlabel)
      rw [hw, Option.some_or]
    · have hnone : ∀ only ∈ [entry], ¬ s.Names only.1 := List.forall_mem_singleton.2 hlabel
      rw [get?_ofEnvironment_of_none hnone, Option.or_none]
  rw [chosen_iff, chosen_iff, Config.setting, Config.setting, get?_layers, get?_layers,
    get?_ofEnvironment_append, get?_ofEnvironment_append, hafter]

/-- What a table says does not count for a setting that a variable is for. -/
theorem chosen_table_iff (hsame : (∃ entry ∈ environment, s.Names entry.1) ∨
      Entries.get? table s.key = Entries.get? table' s.key) :
    s.Chosen environment table v ↔ s.Chosen environment table' v := by
  rw [chosen_iff, chosen_iff, Config.setting, Config.setting, get?_layers, get?_layers]
  obtain hnamed | hsame := hsame
  · obtain ⟨w, hw⟩ := exists_get?_ofEnvironment hnamed
    rw [hw]
    rfl
  · rw [hsame]

end Setting

/-! ### Texts of values -/

namespace NumberFormat

theorem positive_ne_nil (format : NumberFormat) (ds : List Char) (lead : Int) :
    format.positive ds lead ≠ [] := by
  unfold positive
  split
  · split
    · exact List.cons_ne_nil _ _
    · simp
  · simp [power]

theorem write_ne_empty {format : NumberFormat} (hnan : format.nan ≠ "")
    (hinfinity : format.infinity ≠ "") (x : Binary64) : format.write x ≠ "" := by
  cases x with
  | nan => exact hnan
  | infinite negative => simp [write, hinfinity]
  | finite negative units =>
      have hbody (body : List Char) (h : body ≠ []) :
          String.ofList (if negative then '-' :: body else body) ≠ "" := by
        cases negative <;> simp [h]
      refine hbody _ ?_
      split
      · exact List.cons_ne_nil _ _
      · exact format.positive_ne_nil _ _

end NumberFormat

/-- A value of a document that counts as true has a text that is not empty. -/
theorem Toml.Held.plain_ne_empty {v : Value} (hv : Held v) (htruthy : v.truthy) : v.plain ≠ "" := by
  cases hv with
  | bool b => cases b <;> decide
  | int i =>
      cases i with
      | ofNat n => exact Nat.repr_ne_empty
      | negSucc n =>
         change "-" ++ n.succ.repr ≠ ""
         simp
  | float x => exact NumberFormat.write_ne_empty (by decide) (by decide) x
  | text s => simpa [Value.truthy, Value.plain] using htruthy
  | date d => simp [Value.plain, Date.iso]
  | time t => simp [Value.plain, TimeOfDay.iso]
  | moment d t offset => simp [Value.plain]
  | list hxs => simp [Value.plain, Value.literal]
  | mapping hfields => simp [Value.plain, Value.literal]

/-! ### Configurations from settings -/

namespace Config

open Setting

variable {given given' : Fields} {config : Config}

/-- What a configuration has for a setting. -/
def get (config : Config) : (s : Setting) → s.Content
  | .timeout => config.timeout
  | .actionTimeout => config.actionTimeout
  | .navigationTimeout => config.navigationTimeout
  | .waitTimeout => config.waitTimeout
  | .maxDepth => config.maxDepth
  | .maxSourceLength => config.maxSourceLength
  | .headless => config.headless
  | .address => config.address
  | .logRoot => config.logRoot

/-- The configuration that has the given contents. -/
def ofContents (content : (s : Setting) → s.Content) : Config where
  timeout := content .timeout
  actionTimeout := content .actionTimeout
  navigationTimeout := content .navigationTimeout
  waitTimeout := content .waitTimeout
  maxDepth := content .maxDepth
  maxSourceLength := content .maxSourceLength
  headless := content .headless
  address := content .address
  logRoot := content .logRoot

theorem get_ofContents (content : (s : Setting) → s.Content) (s : Setting) :
    (ofContents content).get s = content s := by
  cases s <;> rfl

/-- The settings of a configuration as a document would give them. -/
def toFields (config : Config) : Fields :=
  Setting.all.map fun s => (s.key, s.write (config.get s))

/-- Each setting is read by itself, whatever the other ones are. -/
theorem ofFields_eq (given : Fields) :
    let found (s : Setting) : Except ConfigError s.Content := s.read (setting given s.key)
    ofFields given = do
      return {
        timeout := ← found .timeout
        actionTimeout := ← found .actionTimeout
        navigationTimeout := ← found .navigationTimeout
        waitTimeout := ← found .waitTimeout
        maxDepth := ← found .maxDepth
        maxSourceLength := ← found .maxSourceLength
        headless := ← found .headless
        address := ← found .address
        logRoot := ← found .logRoot } := rfl

theorem ofFields_congr (hsame : ∀ s : Setting, setting given s.key = setting given' s.key) :
    ofFields given = ofFields given' := by
  rw [ofFields_eq, ofFields_eq]
  simp only [hsame]

theorem ofFields_eq_ok_iff : ofFields given = .ok config ↔
    ∀ s : Setting, s.read (setting given s.key) = .ok (config.get s) := by
  constructor
  · intro hgiven
    obtain ⟨timeout, htimeout, hgiven⟩ := Json.exists_of_bind_eq_ok hgiven
    obtain ⟨actionTimeout, haction, hgiven⟩ := Json.exists_of_bind_eq_ok hgiven
    obtain ⟨navigationTimeout, hnavigation, hgiven⟩ := Json.exists_of_bind_eq_ok hgiven
    obtain ⟨waitTimeout, hwait, hgiven⟩ := Json.exists_of_bind_eq_ok hgiven
    obtain ⟨maxDepth, hdepth, hgiven⟩ := Json.exists_of_bind_eq_ok hgiven
    obtain ⟨maxSourceLength, hlength, hgiven⟩ := Json.exists_of_bind_eq_ok hgiven
    obtain ⟨headless, hheadless, hgiven⟩ := Json.exists_of_bind_eq_ok hgiven
    obtain ⟨address, haddress, hgiven⟩ := Json.exists_of_bind_eq_ok hgiven
    obtain ⟨logRoot, hlog, hgiven⟩ := Json.exists_of_bind_eq_ok hgiven
    cases hgiven
    intro s
    cases s <;> assumption
  · intro hread
    rw [ofFields_eq]
    simp only [hread]
    rfl

/-- There is no configuration exactly if some setting cannot be read. -/
theorem exists_ofFields_eq_error_iff : (∃ e, ofFields given = .error e) ↔
    ∃ (s : Setting) (e : ConfigError), s.read (setting given s.key) = .error e := by
  constructor
  · rintro ⟨e, hgiven⟩
    by_contra hall
    have hread (s : Setting) : ∃ x, s.read (setting given s.key) = .ok x := by
      cases hs : s.read (setting given s.key) with
      | ok x => exact ⟨x, rfl⟩
      | error e => exact absurd ⟨s, e, hs⟩ hall
    choose content hcontent using hread
    have hmade : ofFields given = .ok (ofContents content) :=
      ofFields_eq_ok_iff.2 fun s => by rw [hcontent, get_ofContents]
    rw [hmade] at hgiven
    cases hgiven
  · rintro ⟨s, e, hs⟩
    cases hgiven : ofFields given with
    | error e => exact ⟨e, rfl⟩
    | ok config =>
        rw [ofFields_eq_ok_iff.1 hgiven s] at hs
        cases hs

/-! ### Configurations as settings -/

theorem get?_toFields (config : Config) (s : Setting) :
    Entries.get? config.toFields s.key = some (s.write (config.get s)) := by
  cases s <;> rfl

theorem ofValue_mapping {fields : Fields} (hnodup : (fields.map (·.1)).Nodup) :
    ofValue (.mapping fields) = ofFields fields := by
  have hsettings : (fields.map fun entry => ((.text entry.1, entry.2) : Binding)).filterMap setting? =
      fields := by
    rw [List.filterMap_map]
    exact List.filterMap_some
  change ofFields (Entries.ofList (List.filterMap setting?
    (fields.map fun entry => ((.text entry.1, entry.2) : Binding)))) = _
  rw [hsettings, Entries.ofList_of_nodup hnodup]

theorem positive_of_timeoutOf {v : Value} {seconds : Binary64}
    (hread : timeoutOf v = .ok (some seconds)) : Binary64.zero.lt seconds = true := by
  have hkept (x : Except ConfigError Binary64)
      (hx : x.map (fun y => if Binary64.zero.lt y then some y else none) = .ok (some seconds)) :
      Binary64.zero.lt seconds = true := by
    cases x with
    | error e => cases hx
    | ok y =>
        obtain ⟨hy, hsame⟩ := Option.ite_none_right_eq_some.1 (Except.ok.inj hx)
        exact Option.some.inj hsame ▸ hy
  unfold timeoutOf at hread
  simp only at hread
  split at hread
  · cases hread
  · split at hread
    · cases hread
    · exact hkept _ hread
  · exact hkept _ hread

theorem ne_empty_of_addressOf {v : Value} {address : String} (hplain : v.truthy → v.plain ≠ "")
    (hread : addressOf v = .ok (some address)) : address ≠ "" := by
  unfold addressOf at hread
  split at hread
  next htruthy =>
    unfold textOf at hread
    split at hread
    · cases hread
      exact hplain htruthy
    · cases hread
  · cases hread

theorem normal_of_pathOf {v : Value} {path : Path} (hread : pathOf v = .ok path) : path.Normal := by
  unfold pathOf at hread
  split at hread
  · cases hread
    exact Path.normal_ofString _
  · cases hread
  · cases hread

/-- What has been read for a setting reads back when it is written out, if no value that counts as
true has an empty text. -/
theorem read_write {s : Setting} {v : Value} {x : s.Content} (hplain : v.truthy → v.plain ≠ "")
    (hread : s.read v = .ok x) : s.read (s.write x) = .ok x := by
  cases s with
  | timeout =>
      cases x with
      | none => rfl
      | some seconds =>
          have hpositive := positive_of_timeoutOf hread
          change Except.ok (if Binary64.zero.lt seconds then some seconds else none) = _
          rw [if_pos hpositive]
  | address =>
      cases x with
      | none => rfl
      | some address =>
          have hnonempty := ne_empty_of_addressOf hplain hread
          have htruthy : (Value.text address).truthy = true := by
            simpa [Value.truthy] using hnonempty
          have htext : textOf (.text address) = .ok address := if_pos rfl
          change (if (Value.text address).truthy then (textOf (.text address)).map some else _) = _
          rw [if_pos htruthy, htext]
          rfl
  | logRoot => exact congrArg Except.ok (Path.ofString_toString (normal_of_pathOf hread))
  | headless | actionTimeout | navigationTimeout | waitTimeout | maxDepth | maxSourceLength => rfl

/-- A configuration that has been read is read again from its settings. -/
theorem ofValue_toFields (hplain : ∀ s : Setting,
      (setting given s.key).truthy → (setting given s.key).plain ≠ "")
    (hgiven : ofFields given = .ok config) : ofValue (.mapping config.toFields) = .ok config := by
  have hnodup : (config.toFields.map (·.1)).Nodup := by
    have hkeys : config.toFields.map (·.1) = Setting.all.map Setting.key := by
      rw [toFields, List.map_map]
      rfl
    rw [hkeys]
    decide
  rw [ofValue_mapping hnodup, ofFields_eq_ok_iff]
  intro s
  have hwritten : setting config.toFields s.key = s.write (config.get s) := by
    rw [setting, get?_toFields]
    rfl
  rw [hwritten]
  exact read_write (hplain s) (ofFields_eq_ok_iff.1 hgiven s)

/-! ### Configurations from layers -/

theorem held_of_defaults {key : String} {v : Value} (hdefault : Entries.get? defaults key = some v) :
    v = .null ∨ Toml.Held v := by
  have hall : ∀ entry ∈ defaults, entry.2 = .null ∨ Toml.Held entry.2 := by
    simp only [defaults, List.forall_mem_cons]
    exact ⟨.inr (.float _), .inr (.int _), .inr (.int _), .inr (.int _), .inr (.int _),
      .inr (.int _), .inr (.bool _), .inl trivial, .inr (.text _), by simp⟩
  exact hall _ (Entries.mem_of_get? hdefault)

variable {document document' : Option String} {table table' : Fields}
  {environment environment' : Entries String} {s : Setting} {v : Value}

theorem load_eq (htable : ofDocument document = .ok table) :
    load environment document = ofFields (Entries.update table (ofEnvironment environment)) := by
  rw [load, htable]
  rfl

/-- No value that is chosen for a setting counts as true and has an empty text. -/
theorem plain_ne_empty_of_chosen (htable : ofDocument document = .ok table)
    (hv : s.Chosen environment table v) (htruthy : v.truthy) : v.plain ≠ "" := by
  cases hv with
  | fromEnvironment => exact (Toml.Held.text _).plain_ne_empty htruthy
  | fromTable _ hentry =>
      cases held_of_ofDocument htable with
      | mapping hfields => exact (hfields _ (Entries.mem_of_get? hentry)).plain_ne_empty htruthy
  | byDefault _ _ hdefault =>
      obtain rfl | hheld := held_of_defaults hdefault
      · cases htruthy
      · exact hheld.plain_ne_empty htruthy

theorem load_eq_ok_iff (htable : ofDocument document = .ok table) :
    load environment document = .ok config ↔
      ∀ s : Setting, ∃ v, s.Chosen environment table v ∧ s.read v = .ok (config.get s) := by
  rw [load_eq htable, ofFields_eq_ok_iff]
  simp [chosen_iff]

theorem exists_load_eq_error_iff (htable : ofDocument document = .ok table) :
    (∃ e, load environment document = .error e) ↔
      ∃ (s : Setting) (v : Value) (e : ConfigError),
        s.Chosen environment table v ∧ s.read v = .error e := by
  rw [load_eq htable, exists_ofFields_eq_error_iff]
  simp [chosen_iff]

theorem load_congr (htable : ofDocument document = .ok table)
    (htable' : ofDocument document' = .ok table')
    (hsame : ∀ (s : Setting) v, s.Chosen environment table v ↔ s.Chosen environment' table' v) :
    load environment document = load environment' document' := by
  rw [load_eq htable, load_eq htable']
  exact ofFields_congr fun s => chosen_iff.1 ((hsame s _).2 (chosen_iff.2 rfl))

theorem get_congr (htable : ofDocument document = .ok table)
    (htable' : ofDocument document' = .ok table') {config' : Config}
    (hsame : ∀ v, s.Chosen environment table v ↔ s.Chosen environment' table' v)
    (hload : load environment document = .ok config)
    (hload' : load environment' document' = .ok config') : config.get s = config'.get s := by
  obtain ⟨v, hv, hread⟩ := (load_eq_ok_iff htable).1 hload s
  obtain ⟨v', hv', hread'⟩ := (load_eq_ok_iff htable').1 hload' s
  obtain rfl : v = v' := ((hsame v).1 hv).setting_eq.symm.trans hv'.setting_eq
  exact Except.ok.inj (hread.symm.trans hread')

theorem ofValue_of_load (htable : ofDocument document = .ok table)
    (hload : load environment document = .ok config) :
    ofValue (.mapping config.toFields) = .ok config := by
  rw [load_eq htable] at hload
  exact ofValue_toFields (fun s => plain_ne_empty_of_chosen htable (chosen_iff.2 rfl)) hload

/-- One value is chosen for each setting.  A configuration has what each of them reads as, and there is
none exactly if one of them cannot be read.

A setting is the same wherever the same value is chosen for it.  Nothing else counts: a variable can be
left out unless it is the last one for some setting, and the table of another document will do if it
says the same for every setting that no variable is for.

A configuration is read again from its own settings. -/
theorem load_per_setting {document : Option String} {table : Fields}
    (htable : ofDocument document = .ok table) (environment : Entries String) :
    (∀ s : Setting, ∃! v, s.Chosen environment table v) ∧
    (∀ config, load environment document = .ok config ↔
      ∀ s : Setting, ∃ v, s.Chosen environment table v ∧ s.read v = .ok (config.get s)) ∧
    ((∃ e, load environment document = .error e) ↔
      ∃ (s : Setting) (v : Value) (e : ConfigError),
        s.Chosen environment table v ∧ s.read v = .error e) ∧
    (∀ environment' document' table', ofDocument document' = .ok table' →
      ∀ (s : Setting) config config',
        (∀ v, s.Chosen environment table v ↔ s.Chosen environment' table' v) →
        load environment document = .ok config → load environment' document' = .ok config' →
        config.get s = config'.get s) ∧
    (∀ before entry after, environment = before ++ entry :: after →
      (∀ s : Setting, s.Names entry.1 → ∃ later ∈ after, s.Names later.1) →
      load environment document = load (before ++ after) document) ∧
    (∀ document' table', ofDocument document' = .ok table' →
      (∀ s : Setting, (∃ entry ∈ environment, s.Names entry.1) ∨
        Entries.get? table s.key = Entries.get? table' s.key) →
      load environment document = load environment document') ∧
    ∀ config, load environment document = .ok config →
      ofValue (.mapping config.toFields) = .ok config := by
  refine ⟨fun s => ?_, fun config => load_eq_ok_iff htable, exists_load_eq_error_iff htable,
    ?_, ?_, ?_, ?_⟩
  · exact ⟨_, chosen_iff.2 rfl, fun v hv => hv.setting_eq.symm⟩
  · intro environment' document' table' htable' s config config' hsame hload hload'
    exact get_congr htable htable' hsame hload hload'
  · rintro before entry after rfl hunused
    exact load_congr htable htable fun s _ => chosen_append_iff (hunused s)
  · intro document' table' htable' hsame
    exact load_congr htable htable' fun s _ => chosen_table_iff (hsame s)
  · intro config hload
    exact ofValue_of_load htable hload

/-! A document of which only a flag is used, as the other settings in it are overridden or unknown. -/

def layered : String :=
  "[wayang]\nmax_depth=[]\ncdp_url='a'\nheadless=false\nodd=[]\n"

def layeredTable : Fields :=
  [("max_depth", .list []), ("cdp_url", .text "a"), ("headless", .bool false), ("odd", .list [])]

/-- Two variables are for the same setting, and the last one is for none, as its mark is not the one
of settings. -/
def overriding : Entries String :=
  [("WAYANG_TIMEOUT_S", "soon"), ("WAYANG_Max_Depth", "64"), ("WAYANG_cdp_url", ""),
    ("WAYANG_Timeout_s", "0"), ("wayang_headless", "on")]

theorem ofDocument_layered : ofDocument (some layered) = .ok layeredTable := by
  cbv

theorem ofEnvironment_overriding : ofEnvironment overriding =
    [("timeout_s", .text "0"), ("max_depth", .text "64"), ("cdp_url", .text "")] := by
  rfl

/-- The depth in the document is no integer, which counts only if no variable overrides it. -/
theorem load_layered :
    ofDocument (some layered) = .ok layeredTable ∧
    (∃ e, load [] (some layered) = .error e) ∧
    ∃ config, load overriding (some layered) = .ok config ∧
      config = { initial with timeout := none, maxDepth := 64, headless := false } ∧
      ofValue (.mapping config.toFields) = .ok config := by
  obtain ⟨-, -, hfails, -⟩ := load_per_setting ofDocument_layered []
  obtain ⟨-, hloads, -, -, -, -, hwritten⟩ := load_per_setting ofDocument_layered overriding
  have hload : load overriding (some layered) =
      .ok { initial with timeout := none, maxDepth := 64, headless := false } := by
    refine (hloads _).2 fun s => ⟨_, chosen_iff.2 rfl, ?_⟩
    rw [ofEnvironment_overriding]
    cases s <;> rfl
  refine ⟨ofDocument_layered, ?_, _, hload, rfl, hwritten _ hload⟩
  exact hfails.2 ⟨.maxDepth, .list [], _, .fromTable (by simp) rfl, rfl⟩

end Config

end Pagescript
