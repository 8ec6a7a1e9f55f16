import LightPeer.Address.Basic
import LightPeer.Proofs.Address.Spelling

/-!
# Addresses with a witness program

The hash of such an address is the program that the text spells behind the symbol of its version.
The program has to be of twenty bytes, and nothing else is asked: each of the thirty-two versions is
taken and each of the two checksums, so a hash does not tell which script it stands for.

* `witnessProgram?_eq_some_iff` — the texts that have a program;
* `Carries.unique` — a text has one version, one checksum and one program;
* `fromWitness_iff`, `carries_writtenWitness` — the texts whose program is taken for a hash.
-/

namespace LightPeer.Address

open Bech32

/-- A text is an address of this version with this checksum for a program. -/
def Carries (text : String) (version : Nat) (variant : Variant) (program : Bytes) : Prop :=
  ∃ readable, Spells text ⟨readable, version :: pack program, variant⟩

/-- A hash is the program of an address. -/
def FromWitness (text : String) (h : Hash160) : Prop :=
  witnessProgram? text = some h.bytes ∧ hash text = .ok h

/-- The address of a version for a program. -/
def writtenWitness (readable : List Char) (version : Nat) (variant : Variant) (program : Bytes) :
    String :=
  String.ofList (Decoded.written ⟨readable, version :: pack program, variant⟩)

variable {text : String} {program : Bytes} {version : Nat} {variant : Variant} {h : Hash160}

/-- **A program is what an address of some version carries.** -/
theorem witnessProgram?_eq_some_iff :
    witnessProgram? text = some program ↔
      ∃ version variant, Carries text version variant program := by
  rw [witnessProgram?]
  constructor
  · intro hprogram
    split at hprogram
    · cases hprogram
    · next d hdecode =>
      have hspells := decode?_eq_some_iff.mp hdecode
      obtain ⟨readable, values, variant⟩ := d
      cases values with
      | nil => cases hprogram
      | cons version vs =>
        obtain ⟨-, hvs⟩ := List.forall_mem_cons.mp hspells.values
        have hpack : vs = pack program := (bytes?_eq_some_iff hvs).mp hprogram
        refine ⟨version, variant, readable, ?_⟩
        rw [← hpack]
        exact hspells
  · intro ⟨version, variant, readable, hspells⟩
    rw [decode?_eq_some_iff.mpr hspells]
    exact (bytes?_eq_some_iff fun v => lt_of_mem_pack).mpr rfl

/-- Nothing is carried by a text twice, and so a text stands for one hash at most. -/
theorem Carries.unique {version' : Nat} {variant' : Variant} {program' : Bytes}
    (hcarries : Carries text version variant program)
    (hcarries' : Carries text version' variant' program') :
    version = version' ∧ variant = variant' ∧ program = program' := by
  have hprogram := witnessProgram?_eq_some_iff.mpr ⟨_, _, hcarries⟩
  have hprogram' := witnessProgram?_eq_some_iff.mpr ⟨_, _, hcarries'⟩
  obtain ⟨readable, hspells⟩ := hcarries
  obtain ⟨readable', hspells'⟩ := hcarries'
  have hdecode := decode?_eq_some_iff.mpr hspells
  rw [decode?_eq_some_iff.mpr hspells'] at hdecode
  rw [hprogram'] at hprogram
  cases hprogram
  cases hdecode
  exact ⟨rfl, rfl, rfl⟩

/-- A program is a hash if it is as long as one. -/
theorem hash_of_witnessProgram? (hprogram : witnessProgram? text = some program) :
    hash text = if h : program.length = 20 then .ok ⟨program, h⟩
      else .error (.unexpectedLength program.length) := by
  rw [hash, payload?, hprogram]

/-- **Any version and either checksum will do** for a program of twenty bytes. -/
theorem fromWitness_iff :
    FromWitness text h ↔ ∃ version variant, Carries text version variant h.bytes := by
  rw [← witnessProgram?_eq_some_iff]
  constructor
  · exact And.left
  · intro hprogram
    refine ⟨hprogram, ?_⟩
    rw [hash_of_witnessProgram? hprogram, dif_pos h.length_bytes]

/-- Such an address can be written for each of them. -/
theorem carries_writtenWitness {readable : List Char} (hreadable : isReadable readable = true)
    (hlower : readable.map Char.toLower = readable) (hversion : version < 32) :
    Carries (writtenWitness readable version variant program) version variant program :=
  ⟨readable, spells_written hreadable hlower
    (List.forall_mem_cons.mpr ⟨hversion, fun _ => lt_of_mem_pack⟩)⟩

/-- What is carried is carried under the first version if this is its version. -/
theorem Carries.first_iff (hcarries : Carries text version variant program) :
    Carries text 0 .bech32 program ↔ version = 0 ∧ variant = .bech32 := by
  constructor
  · intro hfirst
    obtain ⟨hversion, hvariant, -⟩ := hcarries.unique hfirst
    exact ⟨hversion, hvariant⟩
  · intro ⟨hversion, hvariant⟩
    rw [hversion, hvariant] at hcarries
    exact hcarries

/-- **Of an address with a witness program, the length of the program is checked** and neither the
version nor the checksum.  A hash is taken from a text exactly if the text carries it under some
version and some checksum; it is one under the first version and its checksum exactly if the text
carries it under no other.  For each version, checksum and readable part there is a text from which
the hash is taken, and a program of another length is refused. -/
theorem hash_of_witness (text : String) (h : Hash160) :
    (FromWitness text h ↔ ∃ version variant, Carries text version variant h.bytes) ∧
    ((FromWitness text h → Carries text 0 .bech32 h.bytes) ↔
      ∀ version variant, Carries text version variant h.bytes →
        version = 0 ∧ variant = .bech32) ∧
    (∀ readable version variant, isReadable readable = true →
      readable.map Char.toLower = readable → version < 32 →
        FromWitness (writtenWitness readable version variant h.bytes) h ∧
          (Carries (writtenWitness readable version variant h.bytes) 0 .bech32 h.bytes ↔
            version = 0 ∧ variant = .bech32)) ∧
    (∀ version variant program, Carries text version variant program →
      program.length ≠ 20 → hash text = .error (.unexpectedLength program.length)) := by
  refine ⟨fromWitness_iff, ?_, ?_, ?_⟩
  · constructor
    · intro hfirst version variant hcarries
      have htaken := fromWitness_iff.mpr ⟨version, variant, hcarries⟩
      exact hcarries.first_iff.mp (hfirst htaken)
    · intro honly htaken
      obtain ⟨version, variant, hcarries⟩ := fromWitness_iff.mp htaken
      exact hcarries.first_iff.mpr (honly version variant hcarries)
  · intro readable version variant hreadable hlower hversion
    have hcarries : Carries (writtenWitness readable version variant h.bytes) version variant
        h.bytes := carries_writtenWitness hreadable hlower hversion
    exact ⟨fromWitness_iff.mpr ⟨version, variant, hcarries⟩, hcarries.first_iff⟩
  · intro version variant program hcarries hlength
    have hprogram := witnessProgram?_eq_some_iff.mpr ⟨version, variant, hcarries⟩
    rw [hash_of_witnessProgram? hprogram, dif_neg hlength]

/-- The hash of a key. -/
def keyHash : Hash160 where
  bytes := [0x6e, 0xaf, 0xa6, 0x04, 0xa5, 0x03, 0xa0, 0xbb, 0x44, 0x5a, 0xd1, 0xf6, 0xda, 0xa8,
    0x0f, 0x16, 0x2b, 0x56, 0x05, 0xd6]
  length_bytes := rfl

/-- The address of the key under the first version has the first checksum. -/
theorem carries_keyHash_first :
    Carries "bc1qd6h6vp99qwstk3z668md42q0zc44vpwkk824zh" 0 .bech32 keyHash.bytes := by
  have hwritten : writtenWitness "bc".toList 0 .bech32 keyHash.bytes =
      "bc1qd6h6vp99qwstk3z668md42q0zc44vpwkk824zh" := by decide +kernel
  rw [← hwritten]
  exact carries_writtenWitness rfl rfl (by decide)

/-- The address of the same key under the next version has the other checksum, and it says the
version as well. -/
theorem carries_keyHash_next :
    Carries "bc1pd6h6vp99qwstk3z668md42q0zc44vpwkg9dj27" 1 .bech32m keyHash.bytes := by
  have hwritten : writtenWitness "bc".toList 1 .bech32m keyHash.bytes =
      "bc1pd6h6vp99qwstk3z668md42q0zc44vpwkg9dj27" := by decide +kernel
  rw [← hwritten]
  exact carries_writtenWitness rfl rfl (by decide)

/-- It is taken under the first version with the first checksum, and under the next with the
other. -/
theorem hash_of_witness_both :
    FromWitness "bc1qd6h6vp99qwstk3z668md42q0zc44vpwkk824zh" keyHash ∧
      FromWitness "bc1pd6h6vp99qwstk3z668md42q0zc44vpwkg9dj27" keyHash := by
  obtain ⟨hfirst, -⟩ := hash_of_witness "bc1qd6h6vp99qwstk3z668md42q0zc44vpwkk824zh" keyHash
  obtain ⟨hnext, -⟩ := hash_of_witness "bc1pd6h6vp99qwstk3z668md42q0zc44vpwkg9dj27" keyHash
  exact ⟨hfirst.mpr ⟨0, .bech32, carries_keyHash_first⟩,
    hnext.mpr ⟨1, .bech32m, carries_keyHash_next⟩⟩

/-- Not every hash from a witness program is one under the first version. -/
theorem later_version_taken :
    ¬ ∀ text h, FromWitness text h → Carries text 0 .bech32 h.bytes := by
  intro hfirst
  have htaken := fromWitness_iff.mpr ⟨1, .bech32m, carries_keyHash_next⟩
  obtain ⟨hversion, -⟩ := carries_keyHash_next.first_iff.mp (hfirst _ keyHash htaken)
  cases hversion

end LightPeer.Address
