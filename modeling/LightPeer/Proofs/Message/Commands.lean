import Mathlib.Tactic.SplitIfs
import LightPeer.Message.Basic
import LightPeer.Proofs.Text.Ascii
import LightPeer.Proofs.Wire.Reading

/-!
# The commands that are known

A payload is read by the reader of its command.  Seven commands have one, and each reader gives
messages of its own command only.  Their names are short words of ASCII letters, so nothing but
the bytes of such a name is read as the name.

* `decodes_of_decode` — which reader has given a message, and how;
* `command_eq_of_decode` — a message is one of the command that it was read for;
* `mem_names_iff` — the names of the commands that have a reader.
-/

namespace LightPeer.Message

open Wire

/-- What the reader of a command makes of a payload. -/
inductive Decodes (payload : Bytes) : String → Message → Prop
  | version {v : Version} (h : Version.decoder.decode payload = .ok v) :
      Decodes payload "version" (.version v)
  | verack : Decodes payload "verack" .verack
  | ping {p : Ping} (h : Ping.decoder.decode payload = .ok p) : Decodes payload "ping" (.ping p)
  | inv {entries : List Inventory} (h : inventoryDecoder.decode payload = .ok entries) :
      Decodes payload "inv" (.inv entries)
  | tx {t : Tx} (h : Tx.decoder.decode payload = .ok t) : Decodes payload "tx" (.tx t)
  | block {b : Block} (h : Block.decoder.decode payload = .ok b) :
      Decodes payload "block" (.block b)
  | merkleBlock {b : MerkleBlock} (h : MerkleBlock.decoder.decode payload = .ok b) :
      Decodes payload "merkleblock" (.merkleBlock b)

variable {command : String} {payload : Bytes} {m : Message}

/-- A message that was read comes from the reader of its command. -/
theorem decodes_of_decode (h : decode command payload = .ok (some m)) :
    Decodes payload command m := by
  have hmap {α : Type} {d : Decoder α} {g : α → Message}
      (hdecode : (d >>= fun a => pure (g a)).decode payload = .ok m)
      (hg : ∀ a, d.decode payload = .ok a → Decodes payload command (g a)) :
      Decodes payload command m := by
    obtain ⟨a, ha, rfl⟩ := Decoder.exists_of_decode_map hdecode
    exact hg a ha
  rw [decode] at h
  split at h
  · cases h
  · next d hd =>
    have hread : d.decode payload = .ok m := by
      split at h
      · cases h
      · next hread =>
        cases h
        exact hread
    -- One case for each command.
    unfold decoder? at hd
    split_ifs at hd with hname hname hname hname hname hname hname <;> cases hd <;> subst hname
    · exact hmap hread fun _ => .version
    · cases hread
      exact .verack
    · exact hmap hread fun _ => .ping
    · exact hmap hread fun _ => .inv
    · exact hmap hread fun _ => .tx
    · exact hmap hread fun _ => .block
    · exact hmap hread fun _ => .merkleBlock

/-- A message is read under the name of its own command only. -/
theorem command_eq_of_decode (h : decode command payload = .ok (some m)) : m.command = command := by
  cases decodes_of_decode h <;> rfl

/-- A payload is read as its command says, if the reader of that command reads it to its end. -/
theorem decode_of_parses {d : Decoder Message} (hreader : decoder? command = some d)
    (h : Decoder.Parses .little d payload m) : decode command payload = .ok (some m) := by
  rw [decode, hreader]
  simp only [h.decode_eq]

/-- Nothing is read for a command that is not known. -/
theorem decode_eq_none_iff : decode command payload = .ok none ↔ isKnown command = false := by
  rw [decode, isKnown]
  cases decoder? command with
  | none => exact ⟨fun _ => rfl, fun _ => rfl⟩
  | some d => cases hread : d.decode payload <;> simp [hread]

/-- A payload that is refused is one of a command that is known. -/
theorem isKnown_of_decode_eq_error {cause : Error} (h : decode command payload = .error cause) :
    isKnown command := by
  rw [decode] at h
  split at h
  · cases h
  · next d hd =>
    rw [isKnown, hd]
    rfl

/-- The names of the commands that have a reader. -/
def names : List String := ["version", "verack", "ping", "inv", "tx", "block", "merkleblock"]

/-- The names are all the commands that have a reader. -/
theorem mem_names_iff : command ∈ names ↔ isKnown command := by
  rw [isKnown, decoder?]
  simp only [names, List.mem_cons, List.not_mem_nil, or_false]
  split_ifs <;> simp [*]

/-- Names are of ASCII letters, and no name fills the field of a frame. -/
theorem spelling_of_isKnown (h : isKnown command) :
    (∀ c ∈ command.toList, Utf8.IsPlain c) ∧ 0 ∉ Utf8.encode command ∧
      (Utf8.encode command).length < 12 := by
  have hnames : ∀ name ∈ names, (name.toList.all fun c => decide (Utf8.IsPlain c)) = true ∧
      0 ∉ Utf8.encode name ∧ (Utf8.encode name).length < 12 := by
    decide
  obtain ⟨hplain, hzero, hshort⟩ := hnames command (mem_names_iff.mpr h)
  refine ⟨fun c hc => ?_, hzero, hshort⟩
  exact of_decide_eq_true (List.all_eq_true.mp hplain c hc)

end LightPeer.Message
