import Claimward.Library.Base64

/-!
# WireGuard keys and their texts

A key is 32 bytes. Its text is the padded base64 of them. Requests carry
texts, and `parseKey` accepts more texts than there are keys.
-/

namespace Claimward.Wg

structure Key where
  bytes : List UInt8
  length_eq : bytes.length = 32
  deriving DecidableEq, Repr

/-- The text of a key, `Key.String` in both packages that have a key type. -/
def Key.string (k : Key) : String := String.ofList (Base64.encode k.bytes)

/-- `wgtypes.ParseKey`: base64, leniently decoded, of exactly 32 bytes. -/
def parseKey (s : String) : Except String Key :=
  match Base64.decode s.toList with
  | .error offset =>
      .error ("wgtypes: failed to parse base64-encoded key: illegal base64 data at input byte "
        ++ toString offset)
  | .ok b =>
      if h : b.length = 32 then .ok ⟨b, h⟩
      else .error ("wgtypes: incorrect key size: " ++ toString b.length)

@[simp] theorem parseKey_string (k : Key) : parseKey k.string = .ok k := by
  simp [parseKey, Key.string, Base64.decode_encode, k.length_eq]

theorem Key.string_injective : Function.Injective Key.string := by
  intro k l h
  have hk := parseKey_string k
  rw [h, parseKey_string l] at hk
  exact (Except.ok.inj hk).symm

end Claimward.Wg
