import EdgeQuery.Proofs.Reference

/-!
How far a reference goes. A chain is made of segments with dots between them, each a name with or
without a key; a reference is the longest chain that stands where it begins, and what it is read as
is settled by its segments. Only a chain that makes up an identifier leads an edge path, of which
each target is again the longest chain that makes one up.
-/

namespace EdgeQuery

open Cursor Parse Walk

/-- The token can stand for the name: an identifier, or a keyword as it is spelled in the text. -/
def Token.Names (token : Token) (name : String) : Prop :=
  token.kind = .identifier name ∨ (∃ k, token.kind = .keyword k) ∧ token.text = name

/-- The token can stand for the key. -/
def RecordKey.ReadFrom (token : Token) : RecordKey → Prop
  | .number value => token.kind = .number value
  | .string content => token.kind = .string content
  | .variable name => token.kind = .variable name
  | .raw name => token.Names name

/-- A name in a chain, and the record key that is given with it, if one is. -/
structure Segment where
  name : String
  key : Option RecordKey

namespace Segment

/-- The segment by itself. -/
def identifier : Segment → Identifier
  | ⟨name, none⟩ => .raw name
  | ⟨name, some key⟩ => .record ⟨name, key⟩

/-- The tokens are a name, or a name and the key behind a colon. -/
inductive Written : Segment → List Token → Prop
  | plain {token : Token} {name : String} : token.Names name → Written ⟨name, none⟩ [token]
  | keyed {token colon behind : Token} {name : String} {key : RecordKey} : token.Names name →
      colon.kind = .symbol .colon → key.ReadFrom behind →
      Written ⟨name, some key⟩ [token, colon, behind]

end Segment

/-- The tokens are those of the segments, with dots between them. -/
inductive Chain : List Segment → List Token → Prop
  | last {segment : Segment} {tokens : List Token} : segment.Written tokens →
      Chain [segment] tokens
  | more {segment : Segment} {segments : List Segment} {front back : List Token} {dot : Token} :
      segment.Written front → dot.kind = .symbol .dot → Chain segments back →
      Chain (segment :: segments) (front ++ dot :: back)

def IsChain (tokens : List Token) : Prop :=
  ∃ segments, Chain segments tokens

/-- The segments make up the identifier: there is only one, or none of them has a key. -/
inductive MakesUp : List Segment → Identifier → Prop
  | single (segment : Segment) : MakesUp [segment] segment.identifier
  | dotted {segments : List Segment} : 2 ≤ segments.length →
      (∀ segment ∈ segments, segment.key = none) →
      MakesUp segments (.dotted (segments.map Segment.name))

/-- The tokens are the longest ones that stand first and fulfil the condition. -/
structure Longest (condition : List Token → Prop) (ahead tokens : List Token) : Prop where
  stands : tokens <+: ahead
  holds : condition tokens
  longest : ∀ other, other <+: ahead → condition other → other.length ≤ tokens.length

theorem Longest.eq {condition : List Token → Prop} {ahead tokens other : List Token}
    (h : Longest condition ahead tokens) (hother : Longest condition ahead other) :
    other = tokens := by
  have hle := h.longest other hother.stands hother.holds
  have hge := hother.longest tokens h.stands h.holds
  exact (List.prefix_of_prefix_length_le hother.stands h.stands hle).eq_of_length
    (Nat.le_antisymm hle hge)

section Tokens

variable {token : Token} {name : String} {key : RecordKey}

theorem Token.names_iff : token.Names name ↔ token.name? = some name := by
  unfold Names name?
  constructor
  · rintro (hkind | ⟨⟨k, hkind⟩, rfl⟩) <;> rw [hkind]
  · intro h
    split at h
    · next hkind => exact .inl (Option.some.inj h ▸ hkind)
    · next k hkind => exact .inr ⟨⟨k, hkind⟩, Option.some.inj h⟩
    · cases h

theorem RecordKey.readFrom_iff : key.ReadFrom token ↔ RecordKey.ofToken? token = some key := by
  constructor
  · intro h
    cases key with
    | raw name =>
      refine RecordKey.ofToken?_of_spelledBy ⟨token, rfl, Token.names_iff.mp h⟩
    | _ => exact RecordKey.ofToken?_of_spelledBy ⟨token, rfl, h⟩
  · intro h
    obtain ⟨hspelled, -⟩ := RecordKey.spelledBy_of_ofToken? h
    cases key with
    | raw name =>
      obtain ⟨only, heq, hname⟩ := hspelled
      obtain rfl := List.singleton_inj.mp heq
      exact Token.names_iff.mpr hname
    | _ =>
      obtain ⟨only, heq, hkind⟩ := hspelled
      obtain rfl := List.singleton_inj.mp heq
      exact hkind

end Tokens

/-- A colon stands first, and a key behind it. -/
def KeyAhead (tokens : List Token) : Prop :=
  ∃ colon token rest key, tokens = colon :: token :: rest ∧ colon.kind = .symbol .colon ∧
    RecordKey.ReadFrom token key

/-- A dot stands first, and a name behind it. -/
def NameAhead (tokens : List Token) : Prop :=
  ∃ dot token rest name, tokens = dot :: token :: rest ∧ dot.kind = .symbol .dot ∧
    token.Names name

section Comparison

variable {segment other : Segment} {front front' rest rest' : List Token}

/-- Of two segments that begin alike, the other one is the same or lacks the key, which is still
ahead then. -/
theorem Segment.Written.compare (h : segment.Written front) (hother : other.Written front')
    (heq : front ++ rest = front' ++ rest')
    (hkey : segment.key = none → other.key = none ∨ ¬ KeyAhead rest) :
    other = segment ∧ front' = front ∧ rest' = rest ∨
      front'.length < front.length ∧ ∃ colon more, rest' = colon :: more ∧
        colon.kind = .symbol .colon := by
  cases h with
  | @plain token name hname =>
    cases hother with
    | @plain token' name' hname' =>
      obtain ⟨rfl, rfl⟩ := List.cons.inj heq
      have hnames := (Token.names_iff.mp hname).symm.trans (Token.names_iff.mp hname')
      rw [Option.some.inj hnames]
      exact .inl ⟨rfl, rfl, rfl⟩
    | @keyed token' colon behind name' key hname' hcolon hread =>
      obtain ⟨-, rfl⟩ := List.cons.inj heq
      rcases hkey rfl with hnone | hnot
      · cases hnone
      · exact absurd ⟨colon, behind, rest', key, rfl, hcolon, hread⟩ hnot
  | @keyed token colon behind name key hname hcolon hread =>
    cases hother with
    | plain hname' =>
      obtain ⟨-, rfl⟩ := List.cons.inj heq
      exact .inr ⟨by simp, colon, behind :: rest, rfl, hcolon⟩
    | @keyed token' colon' behind' name' key' hname' hcolon' hread' =>
      simp only [List.cons_append, List.nil_append, List.cons.injEq] at heq
      obtain ⟨rfl, rfl, rfl, rfl⟩ := heq
      have hnames := (Token.names_iff.mp hname).symm.trans (Token.names_iff.mp hname')
      have hkeys :=
        (RecordKey.readFrom_iff.mp hread).symm.trans (RecordKey.readFrom_iff.mp hread')
      rw [Option.some.inj hnames, Option.some.inj hkeys]
      exact .inl ⟨rfl, rfl, rfl⟩

/-- What is written for a segment begins with a name. -/
theorem Segment.Written.exists_names (h : segment.Written front) :
    ∃ token more, front = token :: more ∧ token.Names segment.name := by
  cases h with
  | plain hname => exact ⟨_, [], rfl, hname⟩
  | keyed hname _ _ => exact ⟨_, _, rfl, hname⟩

theorem Chain.exists_names {segments : List Segment} {tokens : List Token}
    (h : Chain segments tokens) : ∃ token more name, tokens = token :: more ∧ token.Names name := by
  cases h with
  | last hwritten =>
    obtain ⟨token, more, rfl, hname⟩ := hwritten.exists_names
    exact ⟨token, more, _, rfl, hname⟩
  | more hwritten _ _ =>
    obtain ⟨token, more, rfl, hname⟩ := hwritten.exists_names
    exact ⟨token, _, _, rfl, hname⟩

/-- No key has been left out in front of what follows; where keys are not read, there is none. -/
def Segment.Settled (keys : Bool) (segment : Segment) (rest : List Token) : Prop :=
  segment.key = none ∧ keys = false ∨ keys = true ∧ (segment.key = none → ¬ KeyAhead rest)

/-- The chain goes as far as it can, in front of what follows it. -/
inductive Greedy (keys : Bool) (rest : List Token) : List Segment → List Token → Prop
  | last {segment : Segment} {tokens : List Token} : segment.Written tokens →
      segment.Settled keys rest → ¬ NameAhead rest → Greedy keys rest [segment] tokens
  | more {segment : Segment} {segments : List Segment} {front back : List Token} {dot : Token} :
      segment.Written front → segment.Settled keys (dot :: back ++ rest) →
      dot.kind = .symbol .dot → Greedy keys rest segments back →
      Greedy keys rest (segment :: segments) (front ++ dot :: back)

theorem Greedy.chain {keys : Bool} {segments : List Segment} {tokens : List Token}
    (h : Greedy keys rest segments tokens) : Chain segments tokens := by
  induction h with
  | last hwritten _ _ => exact .last hwritten
  | more hwritten _ hdot _ ih => exact .more hwritten hdot ih

theorem Greedy.plain {segments : List Segment} {tokens : List Token}
    (h : Greedy false rest segments tokens) : ∀ segment ∈ segments, segment.key = none := by
  have hnone {segment : Segment} {rest : List Token} (hsettled : segment.Settled false rest) :
      segment.key = none := by
    rcases hsettled with ⟨hkey, -⟩ | ⟨⟨⟩, -⟩
    exact hkey
  induction h with
  | last _ hsettled _ => exact List.forall_mem_singleton.mpr (hnone hsettled)
  | more _ hsettled _ _ ih => exact List.forall_mem_cons.mpr ⟨hnone hsettled, ih⟩

/-- No chain that begins alike is longer, and one that is as long has the same segments. The
induction is on the chain that goes as far as it can. -/
theorem Greedy.compare {keys : Bool} {segments others : List Segment} {tokens tokens' : List Token}
    (h : Greedy keys rest segments tokens) (hother : Chain others tokens')
    (hkeys : keys = false → ∀ other ∈ others, other.key = none)
    (heq : tokens ++ rest = tokens' ++ rest') :
    tokens'.length ≤ tokens.length ∧ (tokens'.length = tokens.length → others = segments) := by
  have hkey {segment other : Segment} {rest : List Token} (hmem : other ∈ others)
      (hsettled : segment.Settled keys rest) :
      segment.key = none → other.key = none ∨ ¬ KeyAhead rest := by
    intro hnone
    rcases hsettled with ⟨-, hfalse⟩ | ⟨-, hahead⟩
    · exact .inl (hkeys hfalse other hmem)
    · exact .inr (hahead hnone)
  induction h generalizing others tokens' with
  | @last segment tokens hwritten hsettled hstop =>
    cases hother with
    | @last other _ hwritten' =>
      rcases hwritten.compare hwritten' heq (hkey List.mem_cons_self hsettled) with
        ⟨rfl, rfl, -⟩ | ⟨hlt, -⟩
      · exact ⟨Nat.le_refl _, fun _ => rfl⟩
      · exact ⟨Nat.le_of_lt hlt, fun hlength => absurd hlength (Nat.ne_of_lt hlt)⟩
    | @more other others front back dot hwritten' hdot hback =>
      rw [List.append_assoc, List.cons_append] at heq
      rcases hwritten.compare hwritten' heq (hkey List.mem_cons_self hsettled) with
        ⟨-, -, hrest⟩ | ⟨-, colon, more, hrest, hcolon⟩
      · obtain ⟨token, more, name, rfl, hname⟩ := hback.exists_names
        exact absurd ⟨dot, token, more ++ rest', name, hrest.symm, hdot, hname⟩ hstop
      · rw [(List.cons.inj hrest).1, hcolon] at hdot
        cases hdot
  | @more segment segments front back dot hwritten hsettled hdot hback ih =>
    rw [List.append_assoc] at heq
    cases hother with
    | @last other tokens' hwritten' =>
      rcases hwritten.compare hwritten' heq (hkey List.mem_cons_self hsettled) with
        ⟨rfl, rfl, -⟩ | ⟨hlt, -⟩
      · simp
      · simp only [List.length_append, List.length_cons]
        omega
    | @more other others front' back' dot' hwritten' hdot' hback' =>
      rw [List.append_assoc] at heq
      rcases hwritten.compare hwritten' heq (hkey List.mem_cons_self hsettled) with
        ⟨rfl, rfl, hrest⟩ | ⟨-, colon, more, hrest, hcolon⟩
      · simp only [List.cons_append, List.cons.injEq] at hrest
        have hlater := ih hback'
          (fun hfalse other' hmem => hkeys hfalse other' (List.mem_cons_of_mem other hmem))
          hrest.2.symm (fun hmem => hkey (List.mem_cons_of_mem other hmem))
        simp only [List.length_append, List.length_cons, List.cons.injEq, true_and]
        refine ⟨by omega, fun hlength => hlater.2 (by omega)⟩
      · rw [List.cons_append] at hrest
        rw [(List.cons.inj hrest).1, hcolon] at hdot'
        cases hdot'

end Comparison

section Extent

variable {segments others : List Segment} {tokens rest : List Token}

/-- Nothing is left out in front of the end. -/
theorem Chain.greedy (h : Chain segments tokens) : Greedy true [] segments tokens := by
  induction h with
  | last hwritten =>
    refine .last hwritten (.inr ⟨rfl, fun _ => ?_⟩) ?_
    · rintro ⟨_, _, _, _, heq, -⟩
      cases heq
    · rintro ⟨_, _, _, _, heq, -⟩
      cases heq
  | more hwritten hdot _ ih =>
    refine .more hwritten (.inr ⟨rfl, fun _ => ?_⟩) hdot ih
    rintro ⟨colon, _, _, _, heq, hcolon, -⟩
    rw [(List.cons.inj heq).1, hcolon] at hdot
    cases hdot

/-- Tokens are written for one chain only. -/
theorem Chain.unique (h : Chain segments tokens) (hother : Chain others tokens) :
    others = segments := by
  have hend : tokens ++ [] = tokens ++ [] := rfl
  exact (h.greedy.compare hother nofun hend).2 rfl

theorem Greedy.longest (h : Greedy true rest segments tokens) :
    Longest IsChain (tokens ++ rest) tokens := by
  refine ⟨List.prefix_append tokens rest, ⟨segments, h.chain⟩, ?_⟩
  rintro other ⟨rest', heq⟩ ⟨others, hother⟩
  exact (h.compare hother nofun heq.symm).1

/-- The tokens are a chain that makes up an identifier. -/
def IsTarget (tokens : List Token) : Prop :=
  ∃ segments id, Chain segments tokens ∧ MakesUp segments id

theorem MakesUp.eq {id other : Identifier} (h : MakesUp segments id)
    (hother : MakesUp segments other) : other = id := by
  cases h with
  | single segment =>
    cases hother with
    | single => rfl
    | dotted hlength _ => exact absurd hlength (by simp)
  | dotted hlength _ =>
    cases hother with
    | single segment => exact absurd hlength (by simp)
    | dotted => rfl

/-- A record is not followed by names. -/
theorem Segment.Written.longest_target {segment : Segment} (h : segment.Written tokens)
    (hkey : segment.key ≠ none) : Longest IsTarget (tokens ++ rest) tokens := by
  refine ⟨List.prefix_append tokens rest,
    ⟨[segment], segment.identifier, .last h, .single segment⟩, ?_⟩
  rintro other ⟨rest', heq⟩ ⟨others, id, hchain, hmakes⟩
  have hsettled {other : Segment} : segment.key = none → other.key = none ∨ ¬ KeyAhead rest :=
    fun hnone => absurd hnone hkey
  cases hchain with
  | last hwritten =>
    rcases h.compare hwritten heq.symm hsettled with ⟨-, rfl, -⟩ | ⟨hlt, -⟩
    · exact Nat.le_refl _
    · exact Nat.le_of_lt hlt
  | @more first others front back dot hwritten hdot hback =>
    rw [List.append_assoc] at heq
    rcases h.compare hwritten heq.symm hsettled with ⟨rfl, -, -⟩ | ⟨-, colon, more, hrest, hcolon⟩
    · -- several segments make up an identifier only if none of them has a key
      cases hmakes with
      | single => cases hback
      | dotted _ hnone => exact absurd (hnone first List.mem_cons_self) hkey
    · rw [List.cons_append] at hrest
      rw [(List.cons.inj hrest).1, hcolon] at hdot
      cases hdot

/-- Names are followed as far as they go, if the first one has no key. -/
theorem Greedy.longest_target {name : String} {id : Identifier}
    (h : Greedy false rest (⟨name, none⟩ :: segments) tokens)
    (hmakes : MakesUp (⟨name, none⟩ :: segments) id) (hkey : ¬ KeyAhead (tokens ++ rest).tail) :
    Longest IsTarget (tokens ++ rest) tokens := by
  refine ⟨List.prefix_append tokens rest, ⟨_, id, h.chain, hmakes⟩, ?_⟩
  rintro other ⟨rest', heq⟩ ⟨others, id', hchain, hmakes'⟩
  have hplain : ∀ other ∈ others, other.key = none := by
    cases hmakes' with
    | dotted _ hnone => exact hnone
    | single segment =>
      refine List.forall_mem_singleton.mpr ?_
      cases hchain with
      | more _ _ hback => cases hback
      | last hwritten =>
        cases hwritten with
        | plain => rfl
        | @keyed token colon behind name key _ hcolon hread =>
          refine absurd ?_ hkey
          rw [← heq]
          exact ⟨colon, behind, rest', key, rfl, hcolon, hread⟩
  exact (h.compare hchain (fun _ => hplain) heq.symm).1

end Extent

end EdgeQuery
