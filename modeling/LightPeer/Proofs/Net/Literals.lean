import LightPeer.Net.Target
import LightPeer.Proofs.Net.Groups

/-!
# Peers that are given by an address

A text for a peer is first tried as an endpoint, then, without brackets at its ends, as an address;
only then is a host looked up.  Colons stand between the groups of an address and before a port, but
an endpoint of version 6 has its address in brackets, and behind the text of an address of version 4
comes no colon.  So no address is taken for an endpoint.

* `strip_around` — brackets around a text are taken off, and nothing of the text;
* `Endpoint.ofText?_text` — an endpoint is read from its text, with its scope;
* `Endpoint.ofText?_address`, `Endpoint.ofText?_brackets` — an address is not an endpoint;
* `Target.addresses_need_no_lookUp` — endpoints and addresses stand for themselves.
-/

namespace LightPeer

namespace Text

variable {p : Char → Bool} {cs : List Char}

/-- What is dropped from the front of a text is never found where it does not begin. -/
theorem dropWhile_eq_self (rest : List Char) (hne : cs ≠ []) (h : ∀ c ∈ cs, p c = false) :
    (cs ++ rest).dropWhile p = cs ++ rest := by
  cases cs with
  | nil => exact absurd rfl hne
  | cons c cs =>
    rw [List.cons_append, List.dropWhile_cons, h c List.mem_cons_self, if_neg Bool.false_ne_true]

/-- A text without characters of a kind is left as it is. -/
theorem strip_eq_self (hne : cs ≠ []) (h : ∀ c ∈ cs, p c = false) : strip p cs = cs := by
  have hback : ∀ c ∈ cs.reverse, p c = false := fun c hc => h c (List.mem_reverse.mp hc)
  have hfront := dropWhile_eq_self [] hne h
  have hend := dropWhile_eq_self [] (mt List.reverse_eq_nil_iff.mp hne) hback
  rw [List.append_nil] at hfront hend
  rw [strip, hfront, hend, List.reverse_reverse]

/-- **One character of a kind on each side is taken off**, and nothing between them. -/
theorem strip_around {first last : Char} (hfirst : p first = true) (hlast : p last = true)
    (hne : cs ≠ []) (h : ∀ c ∈ cs, p c = false) : strip p (first :: (cs ++ [last])) = cs := by
  have hback : ∀ c ∈ cs.reverse, p c = false := fun c hc => h c (List.mem_reverse.mp hc)
  have hend := dropWhile_eq_self [] (mt List.reverse_eq_nil_iff.mp hne) hback
  rw [List.append_nil] at hend
  rw [strip, List.dropWhile_cons, if_pos hfirst, dropWhile_eq_self [last] hne h,
    List.reverse_append, List.reverse_singleton, List.singleton_append, List.dropWhile_cons,
    if_pos hlast, hend, List.reverse_reverse]

end Text

namespace Endpoint

variable {rest : List Char}

theorem toList_toString (n : Nat) : (toString n).toList = Nat.toDigits 10 n := Nat.toList_repr

/-- A number that is small enough is read, however many digits it has. -/
theorem readNumber?_toString (limit : Nat) {n : Nat} (hlimit : n < limit)
    (hstops : Ip.Stops rest) :
    Ip.readNumber? 10 limit ((toString n).toList ++ rest).length true
      ((toString n).toList ++ rest) = some (n, rest) := by
  rw [toList_toString, List.length_append]
  exact Ip.readNumber?_toDigits true (by decide) (by decide) hlimit (Nat.le_add_right ..) hstops

/-- A port that was written is read. -/
theorem readPort?_text (port : UInt16) :
    readPort? (':' :: (toString port.toNat).toList) = some (port, []) := by
  have hread := readNumber?_toString 65536 port.toNat_lt Ip.stops_nil
  rw [List.append_nil] at hread
  simp only [readPort?, Ip.readChar?_cons, Option.bind_eq_bind, Option.bind_some, hread,
    UInt16.ofNat_toNat]
  rfl

/-- So is a scope, up to what stops it. -/
theorem readScope?_text (scope : UInt32) (hstops : Ip.Stops rest) :
    readScope? ('%' :: ((toString scope.toNat).toList ++ rest)) = some (scope, rest) := by
  have hread := readNumber?_toString (2 ^ 32) scope.toNat_lt hstops
  simp only [readScope?, Ip.readChar?_cons, Option.bind_eq_bind, Option.bind_some, hread,
    UInt32.ofNat_toNat]
  rfl

/-- Where no bracket stands in front there is no address of version 6 in brackets. -/
theorem readV6?_of_head (h : rest.head? ≠ some '[') : readV6? rest = none := by
  have hnone : Ip.readChar? '[' rest = none := by
    cases rest with
    | nil => rfl
    | cons c cs => exact if_neg fun heq => h (congrArg some heq)
  rw [readV6?, hnone]
  rfl

theorem readV4?_of_bracket : readV4? ('[' :: rest) = none := by
  have hends : Ip.Ends ('[' :: rest) := Ip.ends_cons (by decide) (by decide)
  rw [readV4?, show '[' :: rest = [] ++ '[' :: rest from rfl,
    Ip.readV4?_eq_none List.not_mem_nil hends]
  rfl

/-- An address of version 6 in brackets, with or without its scope, and a port. -/
theorem readV6?_text (a : IPv6) {scope : UInt32} {port : UInt16} (hends : Ip.Ends rest)
    (hcolon : rest.head? ≠ some ':')
    (hscope : (readScope? rest).getD (0, rest) =
      (scope, ']' :: ':' :: (toString port.toNat).toList)) :
    readV6? ('[' :: (a.text.toList ++ rest)) = some (.v6 a scope port, []) := by
  simp only [readV6?, Ip.readChar?_cons, Ip.readV6?_text a hends hcolon, hscope, readPort?_text,
    Option.bind_eq_bind, Option.bind_some]
  rfl

/-- **An endpoint is read from its text.** -/
theorem ofText?_text (e : Endpoint) : ofText? e.text = some e := by
  cases e with
  | v4 a port =>
    have hchars : (text (.v4 a port)).toList =
        a.text.toList ++ ':' :: (toString port.toNat).toList := by
      rw [text, String.toList_append, String.toList_append, List.append_assoc]
      rfl
    have hstops : Ip.Stops (':' :: (toString port.toNat).toList) := Ip.stops_cons (by decide)
    rw [ofText?, hchars]
    simp only [readV4?, Ip.readV4?_text a hstops, readPort?_text, Option.bind_eq_bind,
      Option.bind_some]
    rfl
  | v6 a scope port =>
    have hport : Ip.Ends (']' :: ':' :: (toString port.toNat).toList) :=
      Ip.ends_cons (by decide) (by decide)
    obtain ⟨rest, hchars, hread⟩ : ∃ rest, (text (.v6 a scope port)).toList = '[' :: rest ∧
        readV6? ('[' :: rest) = some (.v6 a scope port, []) := by
      rw [text]
      by_cases hscope : scope = 0
      · refine ⟨a.text.toList ++ ']' :: ':' :: (toString port.toNat).toList, ?_, ?_⟩
        · simp only [if_pos hscope, String.toList_append, List.append_assoc]
          rfl
        · exact readV6?_text a hport (by rintro ⟨⟩) (by rw [hscope]; rfl)
      · have hnumber := readScope?_text scope hport.1
        refine ⟨_ ++ '%' :: ((toString scope.toNat).toList ++ _), ?_,
          readV6?_text a (Ip.ends_cons (by decide) (by decide)) (by rintro ⟨⟩)
            (by rw [hnumber]; rfl)⟩
        simp only [if_neg hscope, String.toList_append, List.append_assoc]
        rfl
    rw [ofText?, hchars, readV4?_of_bracket, hread]
    rfl

/-- **The text of an address is not one of an endpoint.** -/
theorem ofText?_address (ip : Ip) : ofText? ip.text = none := by
  have hbracket : ip.text.toList.head? ≠ some '[' := fun h =>
    absurd (Ip.isTextChar_of_mem_text (List.mem_of_head? h)) (by decide)
  have hnone : readV4? ip.text.toList = none := by
    cases ip with
    | v4 a =>
      have hread := Ip.readV4?_text a Ip.stops_nil
      rw [List.append_nil] at hread
      simp only [Ip.text, readV4?, hread, Option.bind_eq_bind, Option.bind_some]
      rfl
    | v6 a =>
      have hread := Ip.readV4?_textV6 a Ip.ends_nil
      rw [List.append_nil] at hread
      simp only [Ip.text, readV4?, hread, Option.bind_eq_bind, Option.bind_none]
  rw [ofText?, hnone, readV6?_of_head hbracket]
  rfl

/-- In brackets it is none either, since no port follows them. -/
theorem ofText?_brackets (ip : Ip) : ofText? ("[" ++ ip.text ++ "]") = none := by
  have hchars : ("[" ++ ip.text ++ "]").toList = '[' :: (ip.text.toList ++ [']']) := by
    rw [String.toList_append, String.toList_append]
    rfl
  have hends : Ip.Ends [']'] := Ip.ends_cons (by decide) (by decide)
  have hnone : readV6? ('[' :: (ip.text.toList ++ [']'])) = none := by
    rw [readV6?, Ip.readChar?_cons]
    cases ip with
    | v4 a =>
      simp only [Ip.text, Option.bind_eq_bind, Option.bind_some, Ip.readV6?_textV4 a hends.1,
        Option.bind_none]
    | v6 a =>
      simp only [Ip.text, Option.bind_eq_bind, Option.bind_some,
        Ip.readV6?_text a hends (by decide)]
      rfl
  rw [ofText?, hchars, readV4?_of_bracket, hnone]
  rfl

end Endpoint

namespace Target

/-- What a text stands for without a look-up: an endpoint, or an address at the usual port. -/
def literal? (network : Network) (text : String) : Option Endpoint :=
  match Endpoint.ofText? text with
  | some e => some e
  | none =>
    (Ip.ofText? (Text.strip (fun c => c = '[' || c = ']') text.toList)).map
      (Endpoint.ofIp · network.defaultPort)

/-- What is looked up for any other text. -/
def lookUp? (network : Network) (text : String) : Option Target :=
  match Text.splitLast? ':' text.toList with
  | none => some (ofHost text.toList network.defaultPort)
  | some (host, port) => (port? port).map (ofHost host)

/-- A host is looked up only if the text is not that of an endpoint or an address. -/
theorem ofText?_eq (network : Network) (text : String) : ofText? network text =
    match literal? network text with
    | some e => some (.endpoint e)
    | none => lookUp? network text := by
  rw [ofText?, literal?]
  cases Endpoint.ofText? text with
  | some e => rfl
  | none =>
    dsimp only
    cases Ip.ofText? (Text.strip (fun c => c = '[' || c = ']') text.toList) with
    | some ip => rfl
    | none => rfl

/-- **What a text says literally is what it stands for**, and nobody is asked. -/
theorem ofText?_of_literal? {network : Network} {text : String} {e : Endpoint}
    (h : literal? network text = some e) : ofText? network text = some (.endpoint e) := by
  rw [ofText?_eq, h]

/-- **The text of an endpoint stands for it.** -/
theorem literal?_text (network : Network) (e : Endpoint) : literal? network e.text = some e := by
  rw [literal?, Endpoint.ofText?_text]

/-- **The text of an address stands for it at the usual port**, and so it does in brackets. -/
theorem literal?_address (network : Network) (ip : Ip) :
    literal? network ip.text = some (.ofIp ip network.defaultPort) ∧
      literal? network ("[" ++ ip.text ++ "]") = some (.ofIp ip network.defaultPort) := by
  have hne : ip.text.toList ≠ [] := by
    intro hnil
    have hread := Ip.ofText?_text ip
    rw [hnil] at hread
    cases hread
  have hplain : ∀ c ∈ ip.text.toList, (decide (c = '[') || decide (c = ']')) = false := by
    intro c hc
    have hchar := Ip.isTextChar_of_mem_text hc
    rw [Bool.or_eq_false_iff, decide_eq_false_iff_not, decide_eq_false_iff_not]
    exact ⟨by rintro rfl; exact absurd hchar (by decide),
      by rintro rfl; exact absurd hchar (by decide)⟩
  have hchars : ("[" ++ ip.text ++ "]").toList = '[' :: (ip.text.toList ++ [']']) := by
    rw [String.toList_append, String.toList_append]
    rfl
  refine ⟨?_, ?_⟩
  · rw [literal?, Endpoint.ofText?_address, Text.strip_eq_self hne hplain, Ip.ofText?_text]
    rfl
  · rw [literal?, Endpoint.ofText?_brackets, hchars, Text.strip_around rfl rfl hne hplain,
      Ip.ofText?_text]
    rfl

/-- **Endpoints and addresses stand for themselves**, on every network and in each of their forms.
A host is looked up only for a text that is none of them. -/
theorem addresses_need_no_lookUp (network : Network) :
    (∀ text, ofText? network text =
      match literal? network text with
      | some e => some (.endpoint e)
      | none => lookUp? network text) ∧
    (∀ e : Endpoint, literal? network e.text = some e ∧
      ofText? network e.text = some (.endpoint e)) ∧
    ∀ ip : Ip, (literal? network ip.text = some (.ofIp ip network.defaultPort) ∧
        ofText? network ip.text = some (.endpoint (.ofIp ip network.defaultPort))) ∧
      literal? network ("[" ++ ip.text ++ "]") = some (.ofIp ip network.defaultPort) ∧
      ofText? network ("[" ++ ip.text ++ "]") =
        some (.endpoint (.ofIp ip network.defaultPort)) := by
  refine ⟨ofText?_eq network, ?_, ?_⟩
  · intro e
    have hliteral := literal?_text network e
    exact ⟨hliteral, ofText?_of_literal? hliteral⟩
  · intro ip
    obtain ⟨hbare, hbrackets⟩ := literal?_address network ip
    exact ⟨⟨hbare, ofText?_of_literal? hbare⟩, hbrackets, ofText?_of_literal? hbrackets⟩

/-- The text of an address that embeds another one ends in dots, and no port follows it. -/
example : literal? .regtest "::ffff:127.0.0.1" =
    some (.v6 (IPv6.ofIPv4 ⟨0x7F000001⟩) 0 18444) := by
  decide +kernel

end Target

end LightPeer
