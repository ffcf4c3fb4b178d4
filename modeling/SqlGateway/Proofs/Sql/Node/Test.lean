import SqlGateway.Sql.Node.Outline
import SqlGateway.Proofs.Sql.Token.Opening

/-!
# Tests of nodes

The passes look for nodes by tests that are `Firm`: they do not look into groups (`flat`), and neither a
keyword at the front of a statement nor what is loose at its end passes them.
-/

namespace SqlGateway.Sql.Node

open List

variable {n : Node} {t : Token} {p q : Node → Bool}

/-- The node without what is inside it. -/
def flat : Node → Node
  | token t => token t
  | group kind _ => group kind []

@[simp] theorem flat_token (t : Token) : flat (token t) = token t := rfl

@[simp] theorem flat_group (kind : Kind) (inside : List Node) : flat (group kind inside) = group kind [] := rfl

/-- A blank, a comment or a semicolon. -/
def isLoose (n : Node) : Bool :=
  n.isToken Token.isLoose || n.isGroupOf [.comment]

@[simp] theorem flat_flat (n : Node) : flat (flat n) = flat n := by
  cases n <;> rfl

@[simp] theorem isToken_flat (p : Token → Bool) (n : Node) : (flat n).isToken p = n.isToken p := by
  cases n <;> rfl

@[simp] theorem isTokenOf_flat (p : Token.Kind → Bool) (n : Node) : (flat n).isTokenOf p = n.isTokenOf p :=
  isToken_flat _ n

@[simp] theorem isGroupOf_flat (kinds : List Kind) (n : Node) :
    (flat n).isGroupOf kinds = n.isGroupOf kinds := by
  cases n <;> rfl

@[simp] theorem isSpace_flat (n : Node) : (flat n).isSpace = n.isSpace := isToken_flat _ n

@[simp] theorem isWord_flat (n : Node) (word : String) : (flat n).isWord word = n.isWord word :=
  isToken_flat _ n

@[simp] theorem isSign_flat (n : Node) (sign : String) : (flat n).isSign sign = n.isSign sign :=
  isToken_flat _ n

@[simp] theorem isLoose_flat (n : Node) : (flat n).isLoose = n.isLoose := by
  rw [isLoose, isLoose, isToken_flat, isGroupOf_flat]

theorem isLoose_of_isSpace (h : n.isSpace) : n.isLoose := by
  cases n with
  | token t =>
    show (t.isLoose || false)
    rw [Token.isLoose, show t.isSpace from h]
    rfl
  | group => cases h

/-! ### Firm tests -/

/-- The keyword of a statement, or a loose token. -/
def Idle (t : Token) : Prop :=
  t.isLoose ∨ t.kind = .dataKeyword ∨ t.kind = .schemaKeyword

/-- The test does not look into groups, and neither a loose node nor a keyword of a statement passes it. -/
structure Firm (test : Node → Bool) : Prop where
  flat (n : Node) : test (flat n) = test n
  loose {n : Node} : n.isLoose → test n = false
  keyword {w : Token} : w.kind = .dataKeyword ∨ w.kind = .schemaKeyword → test (token w) = false

theorem Firm.or (hp : Firm p) (hq : Firm q) : Firm fun n => p n || q n where
  flat n := by rw [hp.flat, hq.flat]
  loose h := by rw [hp.loose h, hq.loose h]; rfl
  keyword h := by rw [hp.keyword h, hq.keyword h]; rfl

theorem firm_isToken {p : Token → Bool} (hp : ∀ t, Idle t → p t = false) : Firm (isToken p) where
  flat := isToken_flat p
  loose {n} h := by
    cases n with
    | token t => exact hp t (.inl (by simpa [isLoose, isToken, isGroupOf] using h))
    | group => rfl
  keyword h := hp _ (.inr h)

theorem firm_isGroupOf {kinds : List Kind} (h : kinds.contains .comment = false) : Firm (isGroupOf kinds) where
  flat := isGroupOf_flat kinds
  loose {n} hn := by
    cases n with
    | token => rfl
    | group kind inside =>
      obtain rfl : kind = .comment := by simpa [isLoose, isToken, isGroupOf] using hn
      exact h
  keyword _ := rfl

def looseKinds : List Token.Kind :=
  [.blank, .newline, .lineComment, .blockComment, .punctuation]

theorem mem_looseKinds (h : t.isLoose) : t.kind ∈ looseKinds := by
  simp only [Token.isLoose, Token.isSpace, Token.Kind.isComment, Token.isSign, Token.isOneOf, Bool.or_eq_true,
    Bool.and_eq_true, beq_iff_eq] at h
  simp only [looseKinds, mem_cons, not_mem_nil, or_false]
  tauto

theorem isTokenOf_of_isLoose {p : Token.Kind → Bool} (hp : ∀ k ∈ looseKinds, p k = false) (h : n.isLoose) :
    n.isTokenOf p = false := by
  cases n with
  | token t => exact hp t.kind (mem_looseKinds (by simpa [isLoose, isToken, isGroupOf] using h))
  | group => rfl

def idleKinds : List Token.Kind :=
  .dataKeyword :: .schemaKeyword :: looseKinds

theorem mem_idleKinds (h : Idle t) : t.kind ∈ idleKinds := by
  rcases h with h | h | h
  · exact mem_cons_of_mem _ (mem_cons_of_mem _ (mem_looseKinds h))
  · simp [idleKinds, h]
  · simp [idleKinds, h]

theorem firm_isTokenOf {p : Token.Kind → Bool} (hp : ∀ k ∈ idleKinds, p k = false) : Firm (isTokenOf p) :=
  firm_isToken fun t ht => hp t.kind (mem_idleKinds ht)

theorem firm_isOneOf {kind : Token.Kind} (hkind : kind ∉ idleKinds) (texts : List String) :
    Firm (isToken (·.isOneOf kind texts)) := by
  refine firm_isToken fun t ht => ?_
  have hne : t.kind ≠ kind := by
    rintro rfl
    exact hkind (mem_idleKinds ht)
  rw [Token.isOneOf, beq_eq_false_iff_ne.mpr hne]
  rfl

theorem firm_isWord (word : String) : Firm (·.isWord word) :=
  firm_isOneOf (by decide) [word]

theorem firm_any_isWord : ∀ words : List String, Firm fun n => words.any n.isWord
  | [] => ⟨fun _ => rfl, fun _ => rfl, fun _ => rfl⟩
  | word :: words => (firm_isWord word).or (firm_any_isWord words)

theorem firm_isSign {sign : String} (hsign : sign ≠ ";") : Firm (·.isSign sign) := by
  refine firm_isToken fun t ht => ?_
  rw [Bool.eq_false_iff]
  intro h
  obtain ⟨hkind, htext⟩ := Token.isSign_iff.mp h
  simp only [Idle, Token.isLoose, Token.isSpace, Token.Kind.isComment, hkind] at ht
  have hsemicolon := (Token.isSign_iff.mp (show t.isSign ";" by simpa using ht)).2
  exact hsign (String.toList_inj.mp (htext.symm.trans hsemicolon))

theorem firm_isNaming : Firm isNaming :=
  firm_isTokenOf (by decide)

theorem firm_isPlainName : Firm isPlainName :=
  firm_isTokenOf (p := fun k => k == .name || k == .symbol) (by decide)

theorem firm_before_dotted : Firm dotted.before :=
  (firm_isGroupOf (by decide)).or firm_isPlainName

theorem firm_before_indexed : Firm indexed.before :=
  (firm_isGroupOf (by decide)).or firm_isPlainName

theorem firm_isNull : Firm isNull :=
  firm_isWord "NULL"

theorem firm_isOperand : Firm isOperand :=
  (firm_isGroupOf (by decide)).or (firm_isTokenOf (by decide))

theorem firm_isTerm : Firm isTerm :=
  (firm_isOperand.or (firm_isGroupOf (by decide))).or (firm_any_isWord _)

theorem firm_isItem : Firm isItem :=
  (firm_isGroupOf (by decide)).or (firm_isTokenOf (by decide))

theorem firm_isLinked : Firm isLinked :=
  (firm_isGroupOf (by decide)).or (firm_isTokenOf (by decide))

end SqlGateway.Sql.Node
