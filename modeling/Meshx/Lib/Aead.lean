import Meshx.Lib.Bytes

/-! Authenticated encryption as its users see it. A cipher is given with the lengths it
admits; decryption reports whether the tag was right and, right or wrong, leaves the
decrypted bytes in the caller's buffer. -/
namespace Meshx.Lib

/-- An authenticated cipher on byte strings. `admits nonce size tagLen` says for which
lengths of nonce, text and tag the laws hold. -/
structure Aead where
  admits : ℕ → ℕ → ℕ → Prop
  encrypt : (key nonce input : List Byte) → (tagLen : ℕ) → List Byte × List Byte
  decrypt : (key nonce input tag : List Byte) → Bool × List Byte
  encrypt_length : ∀ {k n x t}, admits n.length x.length t → (encrypt k n x t).1.length = x.length
  tag_length : ∀ {k n x t}, admits n.length x.length t → (encrypt k n x t).2.length = t
  decrypt_length : ∀ {k n x t}, admits n.length x.length t.length →
    (decrypt k n x t).2.length = x.length
  decrypt_encrypt : ∀ {k n x t}, admits n.length x.length t →
    decrypt k n (encrypt k n x t).1 (encrypt k n x t).2 = (true, x)
  encrypt_decrypt : ∀ {k n x t}, admits n.length x.length t.length →
    (decrypt k n x t).1 = true → encrypt k n (decrypt k n x t).2 t.length = (x, t)

namespace Aead

variable (C : Aead) {k n : List Byte}

/-- Two ciphertexts that decrypt to one text under one key and nonce are one ciphertext. -/
theorem decrypt_inj {a b s t : List Byte} (ha : C.admits n.length a.length s.length)
    (hb : C.admits n.length b.length t.length) (hlen : s.length = t.length)
    (hs : (C.decrypt k n a s).1 = true) (ht : (C.decrypt k n b t).1 = true)
    (he : (C.decrypt k n a s).2 = (C.decrypt k n b t).2) : a = b ∧ s = t := by
  have h₁ := C.encrypt_decrypt ha hs
  have h₂ := C.encrypt_decrypt hb ht
  rw [he, hlen, h₂] at h₁
  exact ⟨(congrArg Prod.fst h₁).symm, (congrArg Prod.snd h₁).symm⟩

end Aead

end Meshx.Lib
