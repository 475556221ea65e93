import Dhttp.Lib.OrderedCollect
import Dhttp.Access.StoredRules

namespace Dhttp.Access
open Dhttp.Lib
set_option autoImplicit true

section Equality

variable {R : RegexLib}

/-- Patterns are compared by their kind and their text. -/
instance [BEq Kind] : BEq (Pattern R Kind) :=
  ⟨fun p q => p.kind == q.kind && p.pattern == q.pattern⟩

instance : BEq (KVPattern R) := ⟨fun p q => p.key == q.key && p.value == q.value⟩

instance : BEq (AtomicLocationRuleExpr R) where
  beq
    | .any, .any => true
    | .clientName c, .clientName c' => c.pattern == c'.pattern
    | .method m, .method m' => m.pattern == m'.pattern
    | .header h, .header h' => h.pattern == h'.pattern
    | .query q, .query q' => q.pattern == q'.pattern
    | _, _ => false

instance : BEq (Part BooleanOperator (AtomicLocationRuleExpr R)) where
  beq
    | .operator op, .operator op' => op == op'
    | .expr e, .expr e' => e == e'
    | _, _ => false

instance : BEq (Exprs BooleanOperator (AtomicLocationRuleExpr R)) :=
  ⟨fun x y => x.parts == y.parts⟩

theorem Pattern.beq_iff [BEq Kind] [LawfulBEq Kind] {p q : Pattern R Kind} :
    (p == q) = true ↔ p.kind = q.kind ∧ p.pattern = q.pattern := by
  change (p.kind == q.kind && p.pattern == q.pattern) = true ↔ _
  rw [Bool.and_eq_true, beq_iff_eq, beq_iff_eq]

theorem KVPattern.beq_iff {p q : KVPattern R} :
    (p == q) = true ↔ (p.key == q.key) = true ∧ (p.value == q.value) = true :=
  Bool.and_eq_true_iff

theorem AtomicLocationRuleExpr.display_congr {a b : AtomicLocationRuleExpr R}
    (h : (a == b) = true) : a.display = b.display := by
  have hq {Kind : Type} [BEq Kind] [LawfulBEq Kind] {p q : Pattern R Kind}
      (h : (p == q) = true) : escapePattern p = escapePattern q :=
    congrArg escapeText (Pattern.beq_iff.1 h).2
  have hkv {p q : KVPattern R} (h : (p == q) = true) :
      toQuotedEscapedKvPattern p = toQuotedEscapedKvPattern q := by
    obtain ⟨hk, hv⟩ := KVPattern.beq_iff.1 h
    rw [toQuotedEscapedKvPattern, hq hk, hq hv, toQuotedEscapedKvPattern]
  cases a with
  | any =>
    cases b with
    | any => rfl
    | _ => cases h
  | clientName c =>
    cases b with
    | clientName c' => exact congrArg (text "\"" ++ · ++ text "\"") (hq h)
    | _ => cases h
  | method m =>
    cases b with
    | method m' => exact congrArg (text "With Method \"" ++ · ++ text "\"") (hq h)
    | _ => cases h
  | header d =>
    cases b with
    | header d' => exact congrArg (text "With Header " ++ ·) (hkv h)
    | _ => cases h
  | query q =>
    cases b with
    | query q' => exact congrArg (text "With Query " ++ ·) (hkv h)
    | _ => cases h

theorem AtomicLocationRuleExpr.beq_self (a : AtomicLocationRuleExpr R) : (a == a) = true := by
  have hp {Kind : Type} [BEq Kind] [LawfulBEq Kind] (p : Pattern R Kind) : (p == p) = true :=
    Pattern.beq_iff.2 ⟨rfl, rfl⟩
  have hkv (p : KVPattern R) : (p == p) = true := KVPattern.beq_iff.2 ⟨hp _, hp _⟩
  cases a with
  | any => rfl
  | clientName c => exact hp c.pattern
  | method m => exact hp m.pattern
  | header h => exact hkv h.pattern
  | query q => exact hkv q.pattern

theorem Part.display_congr {p q : Part BooleanOperator (AtomicLocationRuleExpr R)}
    (h : (p == q) = true) : p.display BooleanOperator.display AtomicLocationRuleExpr.display =
      q.display BooleanOperator.display AtomicLocationRuleExpr.display := by
  cases p with
  | operator op =>
    cases q with
    | operator op' =>
      have ho : (op == op') = true := h
      rw [eq_of_beq ho]
    | expr e' => cases h
  | expr e =>
    cases q with
    | operator op' => cases h
    | expr e' => exact AtomicLocationRuleExpr.display_congr h

instance : ReflBEq (Part BooleanOperator (AtomicLocationRuleExpr R)) where
  rfl {p} := by
    cases p with
    | operator op => exact beq_self_eq_true op
    | expr e => exact e.beq_self

theorem Exprs.serialize_congr {x y : Exprs BooleanOperator (AtomicLocationRuleExpr R)}
    (h : (x == y) = true) : x.serialize = y.serialize := by
  have hp : (x.parts == y.parts) = true := h
  rw [serialize, serialize]
  generalize x.parts = ps at hp
  generalize y.parts = qs at hp
  induction ps generalizing qs with
  | nil =>
    cases qs with
    | nil => rfl
    | cons q qs => cases hp
  | cons p ps ih =>
    cases qs with
    | nil => cases hp
    | cons q qs =>
      rw [List.cons_beq_cons, Bool.and_eq_true] at hp
      rw [List.flatMap_cons, List.flatMap_cons, Part.display_congr hp.1, ih qs hp.2]

end Equality

section Rows

variable (R : RegexLib)

/-- A location pattern, which is what its own text is parsed to. -/
structure StoredPattern where
  pattern : LocationPattern R
  parsed : LocationPattern.fromStr R pattern.pattern = .ok pattern

/-- An expression whose polish is read back from its text. -/
structure StoredExprs where
  exprs : LocationRuleExprs R
  stored : Exprs.deserialize R exprs.polish.serialize = .ok exprs.polish

variable {R}

namespace StoredPattern

def asStr (p : StoredPattern R) : Text := p.pattern.pattern

def isMatch (p : StoredPattern R) (path : Bytes) : Bool := p.pattern.isMatch path

def priority (p : StoredPattern R) : Nat := p.pattern.kind.priority

theorem ext_asStr {p q : StoredPattern R} (h : p.asStr = q.asStr) : p = q := by
  obtain ⟨p, hp⟩ := p
  obtain ⟨q, hq⟩ := q
  have he : p.pattern = q.pattern := h
  rw [he, hq] at hp
  cases hp
  rfl

instance : DecidableEq (StoredPattern R) := fun p q =>
  decidable_of_iff (p.asStr = q.asStr) ⟨ext_asStr, fun h => h ▸ rfl⟩

end StoredPattern

namespace StoredExprs

def polish (e : StoredExprs R) : Exprs BooleanOperator (AtomicLocationRuleExpr R) :=
  e.exprs.polish

/-- The text under `$.polish` of the stored column. -/
def polishText (e : StoredExprs R) : Text := e.polish.serialize

theorem polish_eq_iff {e e' : StoredExprs R} :
    e.polish = e'.polish ↔ e.polishText = e'.polishText := by
  constructor
  · intro h
    rw [polishText, h, polishText]
  · intro h
    apply Except.ok.inj (ε := DeserializeExprsError R)
    rw [polish, polish, ← e.stored, ← e'.stored]
    exact congrArg (Exprs.deserialize R) h

/-- The equality of the code and the one of the unique index agree. -/
theorem polish_beq_iff {e e' : StoredExprs R} :
    (e.polish == e'.polish) = true ↔ e.polishText = e'.polishText := by
  constructor
  · exact Exprs.serialize_congr
  · intro h
    rw [polish_eq_iff.2 h]
    change (e'.polish.parts == e'.polish.parts) = true
    exact beq_self_eq_true _

/-- What the infix parser accepts can be stored. -/
def ofParsed (h : LocationRuleExprs.fromStr R input = .ok e) : StoredExprs R :=
  ⟨e, by
    obtain ⟨t, ht, he⟩ := fromStr_listed h
    rw [he, deserialize_serialize ht]⟩

end StoredExprs

inductive DbErr where
  | uniqueViolation
  | foreignKeyViolation
  | recordNotUpdated
  | idOverflow
  deriving Repr, DecidableEq

/-- Nanoseconds since the epoch. -/
abbrev DateTimeUtc := Int

def timestampMicros (t : DateTimeUtc) : Int := t / 1000

variable (R)

structure LocationModel where
  id : Int
  pattern : StoredPattern R
  createdAt : DateTimeUtc
  updatedAt : DateTimeUtc

structure RuleModel where
  id : Int
  locationId : Int
  action : RequestAction
  exprs : StoredExprs R
  createdAt : DateTimeUtc
  updatedAt : DateTimeUtc

structure PatternWithTime where
  timestamp : Int
  pattern : StoredPattern R
  deriving DecidableEq

/-- The two tables, in the order of their rows, and the ids they give next. -/
structure Store where
  locations : List (LocationModel R)
  rules : List (RuleModel R)
  nextLocation : Int
  nextRule : Int

variable {R}

/-- By kind, then newer patterns first. -/
def PatternWithTime.cmp (p q : PatternWithTime R) : Ordering :=
  (compare p.pattern.priority q.pattern.priority).then (compare p.timestamp q.timestamp).swap

def LocationModel.patternWithTime (l : LocationModel R) : PatternWithTime R :=
  ⟨timestampMicros l.createdAt, l.pattern⟩

/-- By creation time, then by id. -/
def RuleModel.cmp (r r' : RuleModel R) : Ordering :=
  (compare r.createdAt r'.createdAt).then (compare r.id r'.id)

instance : Std.TransCmp (PatternWithTime.cmp (R := R)) := by
  have h : PatternWithTime.cmp (R := R) =
      compareLex (compareOn fun p => p.pattern.priority) fun p q =>
        compareOn PatternWithTime.timestamp q p := by
    funext p q
    exact congrArg _ (Std.OrientedOrd.eq_swap (α := Int)).symm
  rw [h]
  infer_instance

instance : Std.TransCmp (RuleModel.cmp (R := R)) :=
  inferInstanceAs (Std.TransCmp (compareLex (compareOn RuleModel.createdAt)
    (compareOn RuleModel.id)))

theorem PatternWithTime.cmp_isLE {p q : PatternWithTime R} : (p.cmp q).isLE = true ↔
    p.pattern.priority < q.pattern.priority ∨
      p.pattern.priority = q.pattern.priority ∧ q.timestamp ≤ p.timestamp := by
  rw [cmp, Ordering.isLE_then_iff_or, Nat.compare_eq_lt]
  simp only [Nat.compare_eq_eq, Ordering.isLE_swap]
  rw [Std.isGE_compare]

theorem RuleModel.cmp_self (r : RuleModel R) : r.cmp r = .eq :=
  Std.ReflCmp.compare_self

theorem RuleModel.cmp_eq {r r' : RuleModel R} (h : r.cmp r' = .eq) : r.id = r'.id := by
  rw [cmp, Ordering.then_eq_eq] at h
  exact Std.LawfulEqOrd.eq_of_compare h.2

theorem RuleModel.cmp_lt {r r' : RuleModel R} (h : r.createdAt < r'.createdAt) :
    r.cmp r' = .lt := by
  rw [cmp, Ordering.then_eq_lt]
  exact .inl (Std.compare_eq_lt.2 h)

def sameLogicalRule (left right : RuleModel R) : Bool :=
  left.action == right.action && left.exprs.polish == right.exprs.polish

def deduplicateRules (rules : List (RuleModel R)) : List (RuleModel R) :=
  rules.foldl (fun unique candidate =>
    if unique.any (sameLogicalRule · candidate) then unique else unique ++ [candidate]) []

theorem sameLogicalRule_iff {r r' : RuleModel R} : sameLogicalRule r r' = true ↔
    r.action = r'.action ∧ r.exprs.polishText = r'.exprs.polishText := by
  rw [sameLogicalRule, Bool.and_eq_true, beq_iff_eq, StoredExprs.polish_beq_iff]

/-- What evaluation looks at in a rule. -/
def RuleModel.decisive (r : RuleModel R) : RequestAction × Text :=
  (r.action, r.exprs.polishText)

/-- The columns of the unique index. -/
def RuleModel.logicalKey (r : RuleModel R) : Int × RequestAction × Text :=
  (r.locationId, r.action, r.exprs.polishText)

/-- The constraints of the migrated tables. -/
structure Store.Schema (store : Store R) : Prop where
  location_ids : (store.locations.map LocationModel.id).Nodup
  patterns : (store.locations.map LocationModel.pattern).Nodup
  rule_ids : (store.rules.map RuleModel.id).Nodup
  logical_rules : (store.rules.map RuleModel.logicalKey).Nodup
  foreign_keys : ∀ r ∈ store.rules, ∃ l ∈ store.locations, l.id = r.locationId

end Rows

end Dhttp.Access
