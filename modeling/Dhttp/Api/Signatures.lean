import Dhttp.Api.Errors

namespace Dhttp.Api
set_option autoImplicit true

inductive SignatureScheme where
  | ecdsaNistp256Sha256
  | ecdsaNistp384Sha384
  | ed25519
  | rsaPkcs1Sha256
  | rsaPssSha512
  | other (code : UInt16)
  deriving Repr, DecidableEq

/-- The arcs of an object identifier. -/
abbrev Oid := List Nat

def oidSigEd25519 : Oid := [1, 3, 101, 112]

def oidPkcs1RsaEncryption : Oid := [1, 2, 840, 113549, 1, 1, 1]

def oidKeyTypeEcPublicKey : Oid := [1, 2, 840, 10045, 2, 1]

def oidEcP256 : Oid := [1, 2, 840, 10045, 3, 1, 7]

def oidNistEcP384 : Oid := [1, 3, 132, 0, 34]

/-- A public key with the parameters of its algorithm, where they are an object identifier. -/
structure SubjectPublicKeyInfo where
  algorithm : Oid
  parameters : Option Oid
  subjectPublicKey : Bytes
  deriving Repr, DecidableEq

/-- The verification algorithms of `ring` that the verifier uses. -/
inductive VerificationAlgorithm where
  | ecdsaP384Sha384Asn1
  | ecdsaP256Sha256Asn1
  | ed25519
  | rsaPss2048To8192Sha512
  deriving Repr, DecidableEq

/-- The scheme whose signatures an algorithm checks. -/
def VerificationAlgorithm.scheme : VerificationAlgorithm → SignatureScheme
  | ecdsaP384Sha384Asn1 => .ecdsaNistp384Sha384
  | ecdsaP256Sha256Asn1 => .ecdsaNistp256Sha256
  | ed25519 => .ed25519
  | rsaPss2048To8192Sha512 => .rsaPssSha512

inductive SignError where
  | unsupportedScheme
  | other (message : String)
  deriving Repr, DecidableEq

/-- A private key with the public key of its certificate. -/
structure LocalAuthority where
  publicKey : Bytes
  sign : SignatureScheme → Bytes → Except SignError Bytes

structure CryptoLib where
  fromDer : Bytes → Option SubjectPublicKeyInfo
  verify : VerificationAlgorithm → Bytes → Bytes → Bytes → Bool

/-- The schemes offered to a key, in order. -/
def signingSchemes : List SignatureScheme :=
  [.ecdsaNistp256Sha256, .ecdsaNistp384Sha384, .ed25519, .rsaPkcs1Sha256]

def signWith (authority : LocalAuthority) (data : Bytes) :
    List SignatureScheme → Except Error Bytes
  | [] => .error (.new .identity "unsupported signing key")
  | scheme :: schemes =>
    match authority.sign scheme data with
    | .ok signature => .ok signature
    | .error .unsupportedScheme => signWith authority data schemes
    | .error (.other message) => .error (.new .identity message)

def signAuthority (authority : LocalAuthority) (data : Bytes) : Except Error Bytes :=
  signWith authority data signingSchemes

inductive VerifyError where
  | unsupportedKey
  deriving Repr, DecidableEq

def canonicalVerificationScheme (C : CryptoLib) (spki : Bytes) :
    Except VerifyError SignatureScheme :=
  match C.fromDer spki with
  | none => .error .unsupportedKey
  | some spki =>
    if spki.algorithm = oidSigEd25519 then .ok .ed25519
    else if spki.algorithm = oidPkcs1RsaEncryption then .ok .rsaPssSha512
    else if spki.algorithm ≠ oidKeyTypeEcPublicKey then .error .unsupportedKey
    else
      match spki.parameters with
      | none => .error .unsupportedKey
      | some curve =>
        if curve = oidEcP256 then .ok .ecdsaNistp256Sha256
        else if curve = oidNistEcP384 then .ok .ecdsaNistp384Sha384
        else .error .unsupportedKey

def algorithmOf : SignatureScheme → Option VerificationAlgorithm
  | .ecdsaNistp384Sha384 => some .ecdsaP384Sha384Asn1
  | .ecdsaNistp256Sha256 => some .ecdsaP256Sha256Asn1
  | .ed25519 => some .ed25519
  | .rsaPssSha512 => some .rsaPss2048To8192Sha512
  | _ => none

/-- Verify with the canonical algorithm selected by the public key. -/
def verifySignature (C : CryptoLib) (spki data signature : Bytes) : Except VerifyError Bool :=
  match canonicalVerificationScheme C spki with
  | .error e => .error e
  | .ok scheme =>
    match algorithmOf scheme with
    | none => .error .unsupportedKey
    | some algorithm =>
      match C.fromDer spki with
      | none => .error .unsupportedKey
      | some spki => .ok (C.verify algorithm spki.subjectPublicKey data signature)

def verify (C : CryptoLib) (publicKey data signature : Bytes) : Except Error Bool :=
  (verifySignature C publicKey data signature).mapError fun
    | .unsupportedKey => invalid "unsupported public key type"

/-- The public keys that belong to the private keys of a scheme. -/
def SignatureScheme.Fits : SignatureScheme → SubjectPublicKeyInfo → Prop
  | .ecdsaNistp256Sha256, spki =>
    spki.algorithm = oidKeyTypeEcPublicKey ∧ spki.parameters = some oidEcP256
  | .ecdsaNistp384Sha384, spki =>
    spki.algorithm = oidKeyTypeEcPublicKey ∧ spki.parameters = some oidNistEcP384
  | .ed25519, spki => spki.algorithm = oidSigEd25519
  | .rsaPkcs1Sha256, spki => spki.algorithm = oidPkcs1RsaEncryption
  | .rsaPssSha512, spki => spki.algorithm = oidPkcs1RsaEncryption
  | .other _, _ => True

def SignatureScheme.isRsa (scheme : SignatureScheme) : Bool :=
  scheme = .rsaPkcs1Sha256 || scheme = .rsaPssSha512

/-- Documented behaviour of the libraries: a key signs under the schemes of its type, a signature
verifies under the scheme it was made with and, for RSA, under no other. -/
structure LocalAuthority.Faithful (C : CryptoLib) (authority : LocalAuthority) : Prop where
  fits : ∀ {scheme data signature}, authority.sign scheme data = .ok signature →
    ∃ spki, C.fromDer authority.publicKey = some spki ∧ scheme.Fits spki
  verifies : ∀ {scheme data signature spki}, authority.sign scheme data = .ok signature →
    C.fromDer authority.publicKey = some spki → ∀ algorithm, algorithm.scheme = scheme →
      C.verify algorithm spki.subjectPublicKey data signature = true
  separates : ∀ {scheme data signature spki}, authority.sign scheme data = .ok signature →
    C.fromDer authority.publicKey = some spki → ∀ algorithm, algorithm.scheme ≠ scheme →
      scheme.isRsa = true → algorithm.scheme.isRsa = true →
        C.verify algorithm spki.subjectPublicKey data signature = false

theorem signWith_ok {authority : LocalAuthority} (h : signWith authority data schemes = .ok s) :
    ∃ scheme ∈ schemes, authority.sign scheme data = .ok s := by
  induction schemes with
  | nil => cases h
  | cons scheme schemes ih =>
    rw [signWith] at h
    split at h
    · rename_i signature hs
      cases h
      exact ⟨scheme, List.mem_cons_self .., hs⟩
    · obtain ⟨found, hm, hs⟩ := ih h
      exact ⟨found, List.mem_cons_of_mem _ hm, hs⟩
    · cases h

/-- The answer of the verifier for a key that signs under a scheme. -/
theorem verify_of_fits {C : CryptoLib} {spki : SubjectPublicKeyInfo} {scheme : SignatureScheme}
    (hd : C.fromDer publicKey = some spki) (hf : scheme.Fits spki)
    (hs : scheme ∈ signingSchemes) (data signature : Bytes) :
    ∃ algorithm, verify C publicKey data signature =
        .ok (C.verify algorithm spki.subjectPublicKey data signature) ∧
      algorithm.scheme = if scheme = .rsaPkcs1Sha256 then .rsaPssSha512 else scheme := by
  have hsplit (found : SignatureScheme) (algorithm : VerificationAlgorithm)
      (hc : canonicalVerificationScheme C publicKey = .ok found)
      (ha : algorithmOf found = some algorithm) : verify C publicKey data signature =
        .ok (C.verify algorithm spki.subjectPublicKey data signature) := by
    rw [verify, verifySignature, hc]
    dsimp only
    rw [ha]
    dsimp only
    rw [hd]
    rfl
  have hcanonical : canonicalVerificationScheme C publicKey =
      .ok (if scheme = .rsaPkcs1Sha256 then .rsaPssSha512 else scheme) := by
    rw [canonicalVerificationScheme, hd]
    simp only [signingSchemes, List.mem_cons, List.not_mem_nil, or_false] at hs
    rcases hs with rfl | rfl | rfl | rfl
    · obtain ⟨ha, hp⟩ := hf
      simp only [ha, hp]
      rfl
    · obtain ⟨ha, hp⟩ := hf
      simp only [ha, hp]
      rfl
    · simp only [show spki.algorithm = _ from hf]
      rfl
    · simp only [show spki.algorithm = _ from hf]
      rfl
  simp only [signingSchemes, List.mem_cons, List.not_mem_nil, or_false] at hs
  rcases hs with rfl | rfl | rfl | rfl
  · exact ⟨.ecdsaP256Sha256Asn1, hsplit _ _ hcanonical rfl, rfl⟩
  · exact ⟨.ecdsaP384Sha384Asn1, hsplit _ _ hcanonical rfl, rfl⟩
  · exact ⟨.ed25519, hsplit _ _ hcanonical rfl, rfl⟩
  · exact ⟨.rsaPss2048To8192Sha512, hsplit _ _ hcanonical rfl, rfl⟩

/-- The signature of an authority verifies exactly when its key is not an RSA key. -/
theorem verify_signAuthority_iff {C : CryptoLib} {authority : LocalAuthority}
    (hf : authority.Faithful C) (h : signAuthority authority data = .ok signature) :
    verify C authority.publicKey data signature = .ok true ↔
      ∀ spki, C.fromDer authority.publicKey = some spki →
        spki.algorithm ≠ oidPkcs1RsaEncryption := by
  obtain ⟨scheme, hm, hs⟩ := signWith_ok h
  obtain ⟨spki, hd, hfit⟩ := hf.fits hs
  obtain ⟨algorithm, hv, ha⟩ := verify_of_fits hd hfit hm data signature
  have hrsa : scheme = .rsaPkcs1Sha256 ↔ spki.algorithm = oidPkcs1RsaEncryption := by
    simp only [signingSchemes, List.mem_cons, List.not_mem_nil, or_false] at hm
    rcases hm with rfl | rfl | rfl | rfl
    · simp only [SignatureScheme.Fits] at hfit
      rw [hfit.1]
      decide
    · simp only [SignatureScheme.Fits] at hfit
      rw [hfit.1]
      decide
    · simp only [SignatureScheme.Fits] at hfit
      rw [hfit]
      decide
    · simp only [SignatureScheme.Fits] at hfit
      simp only [hfit]
  rw [hv, hd]
  by_cases hr : scheme = .rsaPkcs1Sha256
  · rw [if_pos hr] at ha
    have hfalse : C.verify algorithm spki.subjectPublicKey data signature = false := by
      refine hf.separates hs hd algorithm ?_ ?_ ?_
      · rw [ha, hr]
        decide
      · rw [hr]
        rfl
      · rw [ha]
        rfl
    rw [hfalse]
    refine iff_of_false (by simp) fun hn => hn spki rfl (hrsa.1 hr)
  · rw [if_neg hr] at ha
    rw [hf.verifies hs hd algorithm ha]
    refine iff_of_true rfl ?_
    rintro _ ⟨⟩ he
    exact hr (hrsa.2 he)

def SignatureScheme.tag : SignatureScheme → UInt8
  | .ecdsaNistp256Sha256 => 0
  | .ecdsaNistp384Sha384 => 1
  | .ed25519 => 2
  | .rsaPkcs1Sha256 => 3
  | .rsaPssSha512 => 4
  | .other _ => 5

/-- An instance whose signatures are the data behind the tag of their scheme; the first byte of a
public key tells an RSA key from an Ed25519 key. -/
def taggedLib : CryptoLib where
  fromDer der :=
    if der = [1] then some ⟨oidPkcs1RsaEncryption, none, []⟩
    else if der = [2] then some ⟨oidSigEd25519, none, []⟩
    else none
  verify algorithm _ data signature := signature == algorithm.scheme.tag :: data

def taggedAuthority (publicKey : Bytes) (supports : SignatureScheme → Bool) : LocalAuthority where
  publicKey := publicKey
  sign scheme data :=
    if supports scheme then .ok (scheme.tag :: data) else .error .unsupportedScheme

theorem SignatureScheme.tag_scheme_inj (algorithm : VerificationAlgorithm)
    {s : SignatureScheme} (h : algorithm.scheme.tag = s.tag) : algorithm.scheme = s := by
  cases algorithm <;> cases s <;> first | rfl | cases h

theorem taggedAuthority_faithful {spki : SubjectPublicKeyInfo} {supports : SignatureScheme → Bool}
    (hd : taggedLib.fromDer publicKey = some spki)
    (hs : ∀ scheme, supports scheme = true → scheme.Fits spki) :
    (taggedAuthority publicKey supports).Faithful taggedLib := by
  have hsign {scheme data signature}
      (h : (taggedAuthority publicKey supports).sign scheme data = .ok signature) :
      supports scheme = true ∧ signature = scheme.tag :: data := by
    simp only [taggedAuthority] at h
    split at h
    · rename_i hsup
      cases h
      exact ⟨hsup, rfl⟩
    · cases h
  refine ⟨fun h => ⟨spki, hd, hs _ (hsign h).1⟩, fun h _ algorithm ha => ?_,
    fun h _ algorithm ha _ _ => ?_⟩
  · rw [(hsign h).2, ← ha]
    exact beq_self_eq_true _
  · rw [(hsign h).2]
    refine beq_eq_false_iff_ne.2 fun he => ha ?_
    exact SignatureScheme.tag_scheme_inj algorithm (List.cons.inj he).1.symm

theorem verify_signAuthority_ed25519 :
    verify taggedLib [2] [7] [2, 7] = .ok true := by
  have hf : (taggedAuthority [2] (· = .ed25519)).Faithful taggedLib := by
    refine taggedAuthority_faithful rfl fun scheme hs => ?_
    rw [of_decide_eq_true hs]
    rfl
  have hsign : signAuthority (taggedAuthority [2] (· = .ed25519)) [7] = .ok [2, 7] := rfl
  refine (verify_signAuthority_iff hf hsign).2 ?_
  rintro spki ⟨⟩
  decide

/-- An RSA key signs under PKCS #1 and its signatures are checked under PSS. -/
theorem verify_signAuthority_rsa :
    (taggedAuthority [1] SignatureScheme.isRsa).Faithful taggedLib ∧
      signAuthority (taggedAuthority [1] SignatureScheme.isRsa) [7] = .ok [3, 7] ∧
      verify taggedLib [1] [7] [3, 7] = .ok false := by
  refine ⟨taggedAuthority_faithful rfl fun scheme hs => ?_, rfl, rfl⟩
  rw [SignatureScheme.isRsa, Bool.or_eq_true, decide_eq_true_iff, decide_eq_true_iff] at hs
  rcases hs with rfl | rfl <;> rfl

end Dhttp.Api
