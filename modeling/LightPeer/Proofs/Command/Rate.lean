import LightPeer.Command.Options

/-!
# The rate of false positives that comes into effect

Three places can say which rate of false positives a filter aims at: an option, the settings in a
file, and the usual settings.  A rate given as an option is checked, and the usual one is in range.
A rate in a file is taken as it stands, whatever number it is.

* `Config.ofJson?_eq_some_iff`, `SettingsFile.config_eq_ok_iff` — the settings field by field;
* `ListenOptions.config_eq_ok_iff` — which settings come into effect, and when;
* `ListenOptions.config_isRate_iff` — their rate is in range unless the file's takes effect and is
  not;
* `rate_of_file_unchecked` — a file whose rate is not.
-/

namespace LightPeer

open Json

/-- What stands under a name in a record. -/
def Json.named? (fields : List (String × Value)) (name : String) : Option Value :=
  (fields.find? fun f => f.1 = name).map Prod.snd

/-- A field has what stands under its name, or its default. -/
theorem Json.field?_eq_some_iff {α : Type} {fields : List (String × Value)} {name : String}
    {read : Value → Option α} {default a : α} :
    field? fields name read default = some a ↔
      (∃ v, named? fields name = some v ∧ read v = some a) ∨
        named? fields name = none ∧ default = a := by
  rw [field?, named?]
  cases fields.find? fun f => f.1 = name <;> simp

namespace FilterPolicy

/-- The names of what a filter is built with, in order. -/
def names : List String := ["false_positive_rate", "update_flags"]

/-- How a filter is built, as the fields of a record have it. -/
structure Stands (fields : List (String × Value)) (p : FilterPolicy) : Prop where
  rate : field? fields "false_positive_rate" Rate.ofJson? ({} : FilterPolicy).rate = some p.rate
  update : field? fields "update_flags" FilterUpdate.ofJson? ({} : FilterPolicy).update =
    some p.update

/-- How a filter is built is read from a record with all its names, and from nothing else. -/
theorem ofJson?_eq_some_iff {v : Value} {p : FilterPolicy} :
    ofJson? v = some p ↔ ∃ fields, v.record? names = some fields ∧ p.Stands fields := by
  simp only [ofJson?, bind, Option.bind_eq_some_iff]
  constructor
  · intro ⟨fields, hfields, rate, hrate, update, hupdate, hp⟩
    cases hp
    exact ⟨fields, hfields, hrate, hupdate⟩
  · intro ⟨fields, hfields, hp⟩
    exact ⟨fields, hfields, p.rate, hp.rate, p.update, hp.update, rfl⟩

end FilterPolicy

namespace Config

/-- Settings, as the fields of a record have them. -/
structure Stands (fields : List (String × Value)) (c : Config) : Prop where
  network : field? fields "network" Network.ofJson? ({} : Config).network = some c.network
  protocolVersion : field? fields "protocol_version" Value.int32? ({} : Config).protocolVersion =
    some c.protocolVersion
  userAgent : field? fields "user_agent" Value.text? ({} : Config).userAgent = some c.userAgent
  startHeight : field? fields "start_height" Value.int32? ({} : Config).startHeight =
    some c.startHeight
  filter : field? fields "filter" FilterPolicy.ofJson? ({} : Config).filter = some c.filter

/-- **Settings are read field by field**: each is what stands under its name, or the usual one. -/
theorem ofJson?_eq_some_iff {v : Value} {c : Config} :
    ofJson? v = some c ↔ ∃ fields, v.record? names = some fields ∧ c.Stands fields := by
  simp only [ofJson?, bind, Option.bind_eq_some_iff]
  constructor
  · intro ⟨fields, hfields, network, hnetwork, version, hversion, agent, hagent, height, hheight,
      filter, hfilter, hc⟩
    cases hc
    exact ⟨fields, hfields, hnetwork, hversion, hagent, hheight, hfilter⟩
  · intro ⟨fields, hfields, hc⟩
    exact ⟨fields, hfields, _, hc.network, _, hc.protocolVersion, _, hc.userAgent, _,
      hc.startHeight, _, hc.filter, rfl⟩

end Config

namespace SettingsFile

/-- The settings that a file gives. -/
inductive Gives : SettingsFile → Config → Prop
  | usual : Gives .notNamed {}
  | stated {bytes : Bytes} {v : Value} {fields : List (String × Value)} {c : Config}
      (htree : Json.parse? bytes = some v) (hfields : v.record? Config.names = some fields)
      (hstands : c.Stands fields) : Gives (.content bytes) c

/-- A file gives settings in the ways that are listed, and in no other. -/
theorem config_eq_ok_iff {file : SettingsFile} {c : Config} :
    file.config = .ok c ↔ file.Gives c := by
  constructor
  · intro hconfig
    cases file with
    | notNamed =>
      cases hconfig
      exact .usual
    | unreadable => cases hconfig
    | broken => cases hconfig
    | content bytes =>
      rw [config] at hconfig
      cases hfile : Config.ofFile? bytes with
      | none =>
        rw [hfile] at hconfig
        cases hconfig
      | some read =>
        rw [hfile] at hconfig
        cases hconfig
        obtain ⟨v, htree, hread⟩ := Option.bind_eq_some_iff.mp hfile
        obtain ⟨fields, hfields, hstands⟩ := Config.ofJson?_eq_some_iff.mp hread
        exact .stated htree hfields hstands
  · intro hgives
    cases hgives with
    | usual => rfl
    | stated htree hfields hstands =>
      have hread := Config.ofJson?_eq_some_iff.mpr ⟨_, hfields, hstands⟩
      rw [config, Config.ofFile?, htree, Option.bind_some, hread]

/-- The rate of false positives that a file sets, if it sets one. -/
def rateSet? : SettingsFile → Option Rate
  | .content bytes => do
    let v ← Json.parse? bytes
    let settings ← v.record? Config.names
    let policy ← named? settings "filter"
    let fields ← policy.record? FilterPolicy.names
    let rate ← named? fields "false_positive_rate"
    Rate.ofJson? rate
  | _ => none

/-- The rate is the one that the file sets, or the usual one. -/
theorem Gives.rate {file : SettingsFile} {c : Config} (h : file.Gives c) :
    c.filter.rate = file.rateSet?.getD ({} : FilterPolicy).rate := by
  cases h with
  | usual => rfl
  | stated htree hfields hstands =>
    rw [rateSet?, htree, Option.bind_eq_bind, Option.bind_some, hfields, Option.bind_eq_bind,
      Option.bind_some]
    rcases Json.field?_eq_some_iff.mp hstands.filter with ⟨policy, hpolicy, hread⟩ | ⟨hnone, husual⟩
    · obtain ⟨fields, hinner, hstands⟩ := FilterPolicy.ofJson?_eq_some_iff.mp hread
      rw [hpolicy, Option.bind_some, hinner, Option.bind_some]
      rcases Json.field?_eq_some_iff.mp hstands.rate with ⟨v, hset, hrate⟩ | ⟨hnone, husual⟩
      · rw [hset, Option.bind_some, hrate]
        rfl
      · rw [hnone, ← husual]
        rfl
    · rw [hnone, ← husual]
      rfl

end SettingsFile

namespace ListenOptions

/-- Settings with a network and a rate from the options in their place. -/
def applyTo (o : ListenOptions) (base : Config) : Config :=
  { base with
    network := o.network.getD base.network
    filter := { base.filter with rate := o.rate.getD base.filter.rate } }

/-- **Which settings come into effect, and when**: those of the file under those of the options, if
a rate given as an option is in range. -/
theorem config_eq_ok_iff {o : ListenOptions} {c : Config} :
    o.config = .ok c ↔
      ∃ base, o.settings.Gives base ∧ (∀ r, o.rate = some r → isRate r) ∧ c = o.applyTo base := by
  simp only [← SettingsFile.config_eq_ok_iff]
  constructor
  · intro hconfig
    rw [config] at hconfig
    cases hbase : o.settings.config with
    | error e =>
      rw [hbase] at hconfig
      cases hconfig
    | ok base =>
      rw [hbase] at hconfig
      refine ⟨base, rfl, ?_⟩
      rw [applyTo]
      cases hrate : o.rate with
      | none =>
        simp only [hrate] at hconfig
        cases hconfig
        exact ⟨fun _ => nofun, rfl⟩
      | some rate =>
        simp only [hrate] at hconfig
        split at hconfig
        · cases hconfig
          refine ⟨?_, rfl⟩
          intro r hr
          cases hr
          assumption
        · cases hconfig
  · intro ⟨base, hbase, hrange, hc⟩
    rw [config, hbase, hc, applyTo]
    cases hrate : o.rate with
    | none => rfl
    | some rate =>
      simp only [if_pos (hrange rate hrate)]
      rfl

/-- The usual rate is in range. -/
theorem isRate_usual : isRate ({} : FilterPolicy).rate := by decide

/-- **The rate in effect is in range, unless it is that of a file and is not in range there.**  The
settings are those of the file, or the usual ones, but for the network and the rate of the options;
a rate given as an option is in range. -/
theorem config_isRate_iff (o : ListenOptions) (c : Config) (h : o.config = .ok c) :
    (∃ base, o.settings.Gives base ∧ c = o.applyTo base) ∧ (∀ r, o.rate = some r → isRate r) ∧
      c.filter.rate = (o.rate.or o.settings.rateSet?).getD ({} : FilterPolicy).rate ∧
      (isRate c.filter.rate ↔ o.rate = none → ∀ r, o.settings.rateSet? = some r → isRate r) := by
  obtain ⟨base, hgives, hrange, rfl⟩ := config_eq_ok_iff.mp h
  have hrate : (o.applyTo base).filter.rate = o.rate.getD base.filter.rate := rfl
  refine ⟨⟨base, hgives, rfl⟩, hrange, ?_⟩
  rw [hrate, hgives.rate]
  cases hoption : o.rate with
  | some r => exact ⟨rfl, fun _ => nofun, fun _ => hrange r hoption⟩
  | none =>
    refine ⟨rfl, ?_⟩
    cases hset : o.settings.rateSet? with
    | none => exact ⟨fun _ _ => nofun, fun _ => isRate_usual⟩
    | some r =>
      constructor
      · intro hr _ _ hsame
        cases hsame
        exact hr
      · intro hfile
        exact hfile rfl r rfl

end ListenOptions

/-- The pieces of a name in a file. -/
def Json.pieces (name : String) : List Piece := (Utf8.encode name).map .byte

/-- The tree of settings that set a rate and nothing else. -/
def Config.rateTree (n : Number) : Value :=
  .object [(pieces "filter", .object [(pieces "false_positive_rate", .number n)])]

/-- Whatever number a file sets as the rate, it is taken. -/
theorem Config.ofJson?_rateTree {n : Number} {f : Float} (h : n.float? = some f) :
    ofJson? (rateTree n) = some { filter := { rate := .ofFloat f } } := by
  have hfilter : Value.record? names (rateTree n) =
      some [("filter", .object [(pieces "false_positive_rate", .number n)])] := rfl
  have hrate : Value.record? FilterPolicy.names
      (.object [(pieces "false_positive_rate", .number n)]) =
      some [("false_positive_rate", .number n)] := rfl
  have hread : Rate.ofJson? (.number n) = some (.ofFloat f) := congrArg (Option.map _) h
  refine ofJson?_eq_some_iff.mpr ⟨_, hfilter, rfl, rfl, rfl, rfl, ?_⟩
  exact FilterPolicy.ofJson?_eq_some_iff.mpr ⟨_, hrate, hread, rfl⟩

/-- Settings with a rate of one and a half. -/
def overrated : Config := { filter := { rate := .ofFloat 1.5 } }

/-- A file that sets a rate of one and a half. -/
def overratedFile : SettingsFile :=
  .content "\x7b\"filter\":\x7b\"false_positive_rate\":1.5\x7d\x7d".toUTF8.toList

/-- The rate of this file is read as it stands, although no option of the command could set it. -/
theorem config_overratedFile : overratedFile.config = .ok overrated := by
  have htree : Json.parse? "\x7b\"filter\":\x7b\"false_positive_rate\":1.5\x7d\x7d".toUTF8.toList =
      some (Config.rateTree ⟨false, [1], some [5], none⟩) := by with_unfolding_all rfl
  have hnumber : Number.float? ⟨false, [1], some [5], none⟩ = some 1.5 := by decide +kernel
  rw [overratedFile, SettingsFile.config, Config.ofFile?, htree, Option.bind_some,
    Config.ofJson?_rateTree hnumber]
  rfl

/-- Options with that file and a rate of one in a hundred. -/
def rated : ListenOptions :=
  { peer := "[::1]", rate := some (.ofFloat 0.01), settings := overratedFile }

/-- A rate among the options takes the place of the one in the file, and is checked. -/
theorem config_isRate_iff_rated :
    rated.config = .ok (rated.applyTo overrated) ∧
      (rated.applyTo overrated).filter.rate = .ofFloat 0.01 ∧
      ListenOptions.isRate (rated.applyTo overrated).filter.rate := by
  have hoption : ∀ r, rated.rate = some r → ListenOptions.isRate r := by
    intro r hr
    cases hr
    decide
  have hconfig : rated.config = .ok (rated.applyTo overrated) :=
    ListenOptions.config_eq_ok_iff.mpr
      ⟨overrated, SettingsFile.config_eq_ok_iff.mp config_overratedFile, hoption, rfl⟩
  obtain ⟨-, -, hrate, hrange⟩ := ListenOptions.config_isRate_iff rated _ hconfig
  exact ⟨hconfig, hrate, hrange.mpr nofun⟩

/-- Without the option the rate of the file comes into effect, and it is not in range. -/
theorem rate_of_file_unchecked :
    ¬ ∀ (o : ListenOptions) (c : Config), o.config = .ok c →
      ListenOptions.isRate c.filter.rate := by
  intro hrange
  have hconfig : { rated with rate := none }.config = .ok overrated :=
    ListenOptions.config_eq_ok_iff.mpr
      ⟨overrated, SettingsFile.config_eq_ok_iff.mp config_overratedFile, nofun, rfl⟩
  exact absurd (hrange _ _ hconfig) (by decide)

end LightPeer
