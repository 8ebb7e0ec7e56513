import Mathlib.Data.List.Basic

/-!
# Cryptographic primitives

The primitives a protocol calls, as functions on byte strings with the laws that hold of every
implementation: the sizes of what they return, that unlocking undoes locking, and that the two
sides of a key exchange agree.

What makes a primitive *secure* is not a law of the functions, since no function from long strings
to short ones is injective.  It is a property of a run: that the run verifies no signature its
owner did not make, and hashes no two different strings to one value.  Developments state it for
their own runs.
-/

namespace Jani

structure Crypto where
  ed25519Sign : (secretKey message : List UInt8) → List UInt8
  ed25519Check : (signature publicKey message : List UInt8) → Bool
  x25519PublicKey : (secret : List UInt8) → List UInt8
  x25519 : (secret publicKey : List UInt8) → List UInt8
  blake2b : (size : Nat) → (message : List UInt8) → List UInt8
  /-- The ciphertext and the authenticator of a plain text. -/
  aeadLock : (key nonce associated plain : List UInt8) → List UInt8 × List UInt8
  aeadUnlock : (authenticator key nonce associated cipher : List UInt8) → Option (List UInt8)
  length_sign : ∀ secretKey message, (ed25519Sign secretKey message).length = 64
  length_publicKey : ∀ secret, (x25519PublicKey secret).length = 32
  length_shared : ∀ secret publicKey, (x25519 secret publicKey).length = 32
  length_blake2b : ∀ size message, (blake2b size message).length = size
  length_cipher : ∀ key nonce associated plain,
    (aeadLock key nonce associated plain).1.length = plain.length
  length_authenticator : ∀ key nonce associated plain,
    (aeadLock key nonce associated plain).2.length = 16
  unlock_lock : ∀ key nonce associated plain,
    aeadUnlock (aeadLock key nonce associated plain).2 key nonce associated
      (aeadLock key nonce associated plain).1 = some plain
  x25519_comm : ∀ s t, x25519 s (x25519PublicKey t) = x25519 t (x25519PublicKey s)

end Jani
