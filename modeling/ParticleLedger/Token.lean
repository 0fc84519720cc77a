import ParticleLedger.Canonical.Encoding
import ParticleLedger.Key
import ParticleLedger.Text.Quoted

/-!
# Tokens

A token is named by the address that issues it and a ticker symbol. Tokens are ordered by the bytes
of the issuer, then by the bytes of the symbol.
-/

namespace ParticleLedger

open Std (TransOrd LawfulEqOrd TransCmp LawfulEqCmp)
open Canonical (Value)

/-- The canonical value of a public key: its bytes. -/
def PublicKey.canonical (k : PublicKey) : Value :=
  .bytes k.toList

/-- The canonical value of a key set: its keys in order. -/
def KeySet.canonical (s : KeySet) : Value :=
  .list (s.toList.map PublicKey.canonical)

/-- A token: who issues it, and its ticker symbol. -/
structure TokenRef where
  issuer : Address
  symbol : String
  deriving DecidableEq

namespace TokenRef

instance : Ord TokenRef :=
  ⟨compareLex (compareOn (·.issuer)) (fun a b => compareText a.symbol b.symbol)⟩

instance : TransOrd TokenRef :=
  haveI : TransCmp fun a b : TokenRef => compareText a.symbol b.symbol :=
    transCmp_compareOn fun t : TokenRef => Bytes.utf8 t.symbol
  inferInstanceAs (TransCmp (compareLex (compareOn fun t : TokenRef => t.issuer) _))

instance : LawfulEqOrd TokenRef where
  compare_self := Std.ReflCmp.compare_self
  eq_of_compare {a b} h := by
    obtain ⟨hi, hs⟩ : compare a.issuer b.issuer = .eq ∧ compareText a.symbol b.symbol = .eq :=
      Ordering.then_eq_eq.1 h
    cases a
    cases b
    obtain rfl := LawfulEqCmp.eq_of_compare hi
    obtain rfl := compareText_eq_iff.1 hs
    rfl

/-- The text shown to users: the symbol and the abbreviated issuer. -/
def display (t : TokenRef) : String :=
  t.symbol ++ "/" ++ t.issuer.describe

/-- The diagnostic text. -/
def describe (t : TokenRef) : String :=
  "TokenRef \x7b issuer: " ++ t.issuer.describe ++ ", symbol: " ++ Text.quoted t.symbol ++ " \x7d"

def canonical (t : TokenRef) : Value :=
  .record "radix.token_ref" [("issuer", t.issuer.key.canonical), ("symbol", .text t.symbol)]

end TokenRef

/-- Which tokens an observer follows. -/
inductive TokenFilter where
  | any
  | only (token : TokenRef)
  deriving DecidableEq

namespace TokenFilter

/-- Whether the observer follows the token. -/
def accepts : TokenFilter → TokenRef → Bool
  | any, _ => true
  | only t, token => t = token

/-- An order for look-up: the filter without a token comes first. -/
def token? : TokenFilter → Option TokenRef
  | any => none
  | only t => some t

instance : Ord TokenFilter := ⟨compareOn token?⟩
instance : TransOrd TokenFilter := transCmp_compareOn _
instance : LawfulEqOrd TokenFilter :=
  lawfulEqCmp_compareOn fun {a b} h => by cases a <;> cases b <;> simp_all [token?]

end TokenFilter

end ParticleLedger
