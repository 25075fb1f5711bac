import Mathlib.Data.List.Induction
import Mathlib.Data.List.Nodup
import Sidecar.Proofs.Config.Settings

/-!
# The variables of the settings

Each setting has a variable that is named for its place (`Config.Setting.variableName`), and no two
settings have the same one (`Config.variableName_injective`). A variable sets its setting to a value
if its text spells one of the setting's kind (`Config.Setting.SetBy`). Numbers are spelled by
decimal numerals, and exactly those below the bound are read (`parseNat?_eq_some_iff`).

Overriding a configuration takes each setting but one to what its own variable sets it to, and
leaves it as it is if the variable sets it to nothing (`Config.get_override`). The one is the size
of the buffers a resource is sent in: no variable changes it
(`Config.get_override_resourceChunk`).
-/

namespace Sidecar

/-! ## Numerals -/

/-- The text is a decimal numeral of the number: its digits, maybe after zeros and a plus sign. -/
def IsNumeral (text : String) (n : Nat) : Prop :=
  ∃ (plus : List Char) (zeros : Nat), (plus = [] ∨ plus = ['+']) ∧
    text.toList = plus ++ (List.replicate zeros '0' ++ Nat.toDigits 10 n)

/-- A digit at the end adds to ten times the number before it. -/
theorem digitsValue_concat {c : Char} (h : c.isDigit = true) (ds : List Char) :
    Toml.digitsValue 10 (ds ++ [c]) = Toml.digitsValue 10 ds * 10 + (c.toNat - 48) := by
  have hc : c ≠ '_' := by
    rintro rfl
    cases h
  rw [Toml.digitsValue, List.foldl_append, List.foldl_cons, List.foldl_nil, if_neg hc, if_pos h]
  rfl

/-- Zeros at the front do not count. -/
theorem digitsValue_zeros (zeros : Nat) (ds : List Char) :
    Toml.digitsValue 10 (List.replicate zeros '0' ++ ds) = Toml.digitsValue 10 ds := by
  induction zeros with
  | zero => rfl
  | succ zeros ih => exact ih

/-- A digit counts less than ten, and what it counts is written as that digit. -/
theorem toDigits_of_isDigit {c : Char} (h : c.isDigit = true) :
    c.toNat - 48 < 10 ∧ Nat.toDigits 10 (c.toNat - 48) = [c] := by
  obtain ⟨hlo, hhi⟩ : 48 ≤ c.toNat ∧ c.toNat ≤ 57 := Char.isDigit_iff_toNat.1 h
  have hlt : c.toNat - 48 < 10 := by omega
  have hchar : (c.toNat - 48).digitChar = c := by
    rw [← Char.toNat_inj, Nat.toNat_digitChar_of_lt_ten hlt]
    omega
  exact ⟨hlt, by rw [Nat.toDigits_of_lt_base hlt, hchar]⟩

/-- Digits are zeros and then the digits of their number. -/
theorem exists_zeros_toDigits {ds : List Char} (hne : ds ≠ [])
    (h : ∀ c ∈ ds, c.isDigit = true) :
    ∃ zeros, ds = List.replicate zeros '0' ++ Nat.toDigits 10 (Toml.digitsValue 10 ds) := by
  induction ds using List.reverseRecOn with
  | nil => exact absurd rfl hne
  | append_singleton ds c ih =>
    obtain ⟨hlt, hlast⟩ := toDigits_of_isDigit (h c (by simp))
    rw [digitsValue_concat (h c (by simp)), Nat.mul_comm]
    by_cases hds : ds = []
    · exact ⟨0, by simp [hds, Toml.digitsValue, hlast]⟩
    obtain ⟨zeros, hzeros⟩ := ih hds fun c hc => h c (by simp [hc])
    by_cases hvalue : Toml.digitsValue 10 ds = 0
    · -- all the digits before the last one are zeros, the one of the number zero among them
      rw [hvalue] at hzeros ⊢
      refine ⟨zeros + 1, ?_⟩
      rw [Nat.mul_zero, Nat.zero_add, hlast, hzeros, List.replicate_succ']
      rfl
    · refine ⟨zeros, ?_⟩
      rw [← Nat.toDigits_append_toDigits (by decide) (Nat.pos_of_ne_zero hvalue) hlt, hlast,
        ← List.append_assoc, ← hzeros]

/-- Nothing but a plus sign is dropped. -/
theorem exists_plus_dropPlus (cs : List Char) :
    ∃ plus, (plus = [] ∨ plus = ['+']) ∧ cs = plus ++ dropPlus cs := by
  unfold dropPlus
  split
  next => exact ⟨['+'], .inr rfl, rfl⟩
  next => exact ⟨[], .inl rfl, rfl⟩

/-- A plus sign is dropped before digits, and no digit is. -/
theorem dropPlus_append {plus ds : List Char} (hplus : plus = [] ∨ plus = ['+'])
    (h : ∀ c ∈ ds, c.isDigit = true) : dropPlus (plus ++ ds) = ds := by
  obtain rfl | rfl := hplus
  · rw [List.nil_append]
    unfold dropPlus
    split
    next => cases h '+' (List.mem_cons_self ..)
    next => rfl
  · rfl

/-- A text is read as a number exactly if it is a numeral of it, and the number is in range. -/
theorem parseNat?_eq_some_iff {bound n : Nat} {text : String} :
    parseNat? bound text = some n ↔ IsNumeral text n ∧ n < bound := by
  constructor
  · intro h
    obtain ⟨⟨hne, hdigits, hlt⟩, hn⟩ := Option.ite_none_right_eq_some.1 h
    obtain rfl := Option.some.inj hn
    obtain ⟨plus, hplus, htext⟩ := exists_plus_dropPlus text.toList
    obtain ⟨zeros, hzeros⟩ := exists_zeros_toDigits hne (List.all_eq_true.1 hdigits)
    exact ⟨⟨plus, zeros, hplus, by rw [← hzeros, ← htext]⟩, hlt⟩
  · rintro ⟨⟨plus, zeros, hplus, htext⟩, hlt⟩
    have hdigits : ∀ c ∈ List.replicate zeros '0' ++ Nat.toDigits 10 n, c.isDigit = true := by
      intro c hc
      rcases List.mem_append.1 hc with hc | hc
      · rw [List.eq_of_mem_replicate hc]
        rfl
      · exact Nat.isDigit_of_mem_toDigits (by decide) (by decide) hc
    have hdrop := dropPlus_append hplus hdigits
    have hvalue : Toml.digitsValue 10 (List.replicate zeros '0' ++ Nat.toDigits 10 n) = n := by
      rw [digitsValue_zeros, Toml.digitsValue_toDigits]
    have hne : List.replicate zeros '0' ++ Nat.toDigits 10 n ≠ [] :=
      List.append_ne_nil_of_right_ne_nil _ Nat.toDigits_ne_nil
    rw [parseNat?, htext, hdrop]
    simp only [hvalue]
    exact if_pos ⟨hne, List.all_eq_true.2 hdigits, hlt⟩

namespace Config

open Toml (Node Plain)

/-! ## Variables -/

/-- The text spells a value of the kind. Every text is a truth value, and two of them are true. -/
def Kind.Spells : Kind → String → Plain → Prop
  | text, t, .text s => s = t
  | number bound, t, .number n => IsNumeral t n ∧ n < bound
  | flag, t, .flag b => b = true ↔ t = "true" ∨ t = "1"
  | _, _, _ => False

namespace Setting

/-- The variable that is named for the setting, by its section and its key in capitals. -/
def variableName (s : Setting) : String :=
  "GRIDAGENT_" ++ s.place.sectionName.toUpper ++ "__" ++ s.place.key.toUpper

/-- The value that is taken for the one a variable spells: a queue keeps at least one slot. -/
def raise : Setting → Plain → Plain
  | queueCapacity, .number n => .number (max n 1)
  | _, v => v

/-- The setting's variable is set to a text that spells the value. -/
def SetBy (s : Setting) (env : Environment) (v : Plain) : Prop :=
  ∃ t w, env.get? s.variableName = some t ∧ s.kind.Spells t w ∧ v = s.raise w

/-- The value of the setting over one below: what its variable sets it to, or else the one below. -/
inductive Overridden (s : Setting) (env : Environment) (below : Plain) : Plain → Prop
  | set {v : Plain} (hset : s.SetBy env v) : Overridden s env below v
  | unset (hunset : ∀ v, ¬ s.SetBy env v) : Overridden s env below below

end Setting

/-- The names of all variables. -/
theorem variableNames_eq : Setting.all.map Setting.variableName =
    ["GRIDAGENT_AGENT__SESSION_ID", "GRIDAGENT_AGENT__TASK_ID", "GRIDAGENT_AGENT__PARTITION_ID",
      "GRIDAGENT_AGENT__COMMUNICATION_TOKEN", "GRIDAGENT_NETWORK__LISTEN_ADDR",
      "GRIDAGENT_NETWORK__PORT", "GRIDAGENT_STREAMING__TASK_QUEUE_CAPACITY",
      "GRIDAGENT_STREAMING__MAX_TASK_PAYLOAD_BYTES", "GRIDAGENT_STREAMING__RESOURCE_CHUNK_BYTES",
      "GRIDAGENT_STORAGE__RESOURCES_PATH", "GRIDAGENT_STORAGE__IN_MEMORY"] := by
  decide +kernel

/-! ## What a variable is read as -/

/-- The value of the kind that a text spells. -/
def Kind.ofText? : Kind → String → Option Plain
  | text, t => some (.text t)
  | number bound, t => (parseNat? bound t).map .number
  | flag, t => some (.flag (t == "true" || t == "1"))

/-- A value of a kind is read exactly from the texts that spell it. -/
theorem Kind.ofText?_eq_some_iff {k : Kind} {t : String} {v : Plain} :
    k.ofText? t = some v ↔ k.Spells t v := by
  cases k with
  | text => cases v <;> simp [ofText?, Spells, eq_comm]
  | number bound => cases v <;> simp [ofText?, Spells, parseNat?_eq_some_iff]
  | flag =>
    cases v with
    | flag b => cases b <;> simp [ofText?, Spells]
    | _ => simp [ofText?, Spells]

variable {env : Environment} {s : Setting} {v : Plain}

/-- The value that the setting's variable is read as. -/
def Setting.fromEnvironment? (s : Setting) (env : Environment) : Option Plain :=
  (env.get? s.variableName).bind fun t => (s.kind.ofText? t).map s.raise

/-- What a variable is read as is what it is set to. -/
theorem Setting.setBy_iff_fromEnvironment? : s.SetBy env v ↔ s.fromEnvironment? env = some v := by
  simp only [SetBy, fromEnvironment?, Option.bind_eq_some_iff, Option.map_eq_some_iff,
    Kind.ofText?_eq_some_iff]
  constructor
  · rintro ⟨t, w, ht, hw, rfl⟩
    exact ⟨t, ht, w, hw, rfl⟩
  · rintro ⟨t, ht, w, hw, rfl⟩
    exact ⟨t, w, ht, hw, rfl⟩

/-- What a variable is read as comes before the value below. -/
theorem Setting.overridden_iff {below : Plain} :
    s.Overridden env below v ↔ (s.fromEnvironment? env).getD below = v := by
  constructor
  · rintro (hset | hunset)
    · rw [setBy_iff_fromEnvironment?.1 hset]
      rfl
    · have hnone : s.fromEnvironment? env = none :=
        Option.eq_none_iff_forall_not_mem.2 fun v hv => hunset v (setBy_iff_fromEnvironment?.2 hv)
      rw [hnone]
      rfl
  · rintro rfl
    cases hvalue : s.fromEnvironment? env with
    | none =>
      refine .unset fun v hv => ?_
      cases hvalue.symm.trans (setBy_iff_fromEnvironment?.1 hv)
    | some v => exact .set (setBy_iff_fromEnvironment?.2 hvalue)

/-! ## Overrides -/

/-- A value is overridden as well in another form. -/
theorem apply_override {α β : Type} (wrap : α → β) (env : Environment) (name : String)
    (read : String → Option α) (value : α) :
    wrap (env.override name read value) =
      ((env.get? name).bind fun t => (read t).map wrap).getD (wrap value) := by
  rw [Environment.override]
  cases env.get? name with
  | none => rfl
  | some t =>
    show wrap ((read t).getD value) = ((read t).map wrap).getD (wrap value)
    cases read t <;> rfl

/-- Each setting but one takes what its own variable is read as. -/
theorem get_override (c : Config) (h : s ≠ .resourceChunk) :
    s.get (c.override env) = (s.fromEnvironment? env).getD (s.get c) := by
  -- a variable that is read in another setting's place would not have that setting's name
  have hnames := variableNames_eq
  simp only [Setting.all, List.map_cons, List.map_nil, List.cons.injEq] at hnames
  cases s with
  | resourceChunk => exact absurd rfl h
  | sessionId | taskId | partitionId | token | listenAddress | resourcesPath =>
    simp only [Setting.fromEnvironment?, hnames]
    exact apply_override Plain.text ..
  | listenNumber | maxPayload =>
    simp only [Setting.fromEnvironment?, hnames, Setting.kind, Kind.ofText?, Option.map_map]
    exact apply_override Plain.number ..
  | queueCapacity =>
    simp only [Setting.fromEnvironment?, hnames, Setting.kind, Kind.ofText?, Option.map_map]
    refine (apply_override Plain.number ..).trans ?_
    simp only [Option.map_map]
    rfl
  | inMemory =>
    simp only [Setting.fromEnvironment?, hnames]
    exact apply_override Plain.flag ..

/-- No two settings have the same variable. -/
theorem variableName_injective : Function.Injective Setting.variableName := by
  have hnodup : (Setting.all.map Setting.variableName).Nodup := by
    rw [variableNames_eq]
    decide
  exact fun s s' h => List.inj_on_of_nodup_map hnodup s.mem_all s'.mem_all h

/-- The size of a resource's buffers stays as it is, whatever its variable says. -/
theorem get_override_resourceChunk (c : Config) :
    Setting.resourceChunk.get (c.override env) = Setting.resourceChunk.get c :=
  rfl

end Config

end Sidecar
