import Apidoc.Java.Reader
import Apidoc.Proofs.Java.Piece
import Mathlib.Data.List.Lemmas

/-!
# `Apidoc.Proofs.Java.Tree`: the tokens of the trees, and the annotations among them

The tokens of the trees of a source, from left to right, are its pieces that are no trivia
(`map_piece_ofSource`). An annotation reaches from its sign to a later token. Of two annotations in
the trees, one that begins inside of the other stands between its parentheses (`nested`).
-/

set_option autoImplicit false

namespace Apidoc.Java

namespace Tree

mutual

/-- The tokens of a tree from left to right, its brackets included. -/
def tokens : Tree → List Token
  | .token t => [t]
  | .group opening items closing => opening :: (tokensAll items ++ [closing])

/-- The tokens of several trees. -/
def tokensAll : List Tree → List Token
  | [] => []
  | t :: rest => t.tokens ++ tokensAll rest

end

theorem tokensAll_append (ts us : List Tree) :
    tokensAll (ts ++ us) = tokensAll ts ++ tokensAll us := by
  induction ts with
  | nil => rfl
  | cons t rest ih => rw [List.cons_append, tokensAll, tokensAll, ih, List.append_assoc]

theorem first_mem_tokens (t : Tree) : t.first ∈ t.tokens := by
  cases t with
  | token t => exact List.mem_singleton_self t
  | group opening items closing => exact List.mem_cons_self

theorem last_mem_tokens (t : Tree) : t.last ∈ t.tokens := by
  cases t with
  | token t => exact List.mem_singleton_self t
  | group opening items closing =>
    exact List.mem_cons_of_mem opening (List.mem_append_right _ (List.mem_singleton_self closing))

/-- The tokens of one of the trees are among the tokens of all of them. -/
theorem tokens_sublist (before rest : List Tree) (t : Tree) :
    t.tokens.Sublist (tokensAll (before ++ t :: rest)) := by
  rw [tokensAll_append, tokensAll]
  exact (List.sublist_append_left _ _).trans (List.sublist_append_right _ _)

theorem tokens_subset_of_mem {t : Tree} {ts : List Tree} (h : t ∈ ts) :
    t.tokens ⊆ tokensAll ts := by
  obtain ⟨before, after, rfl⟩ := List.append_of_mem h
  exact (tokens_sublist before after t).subset

/-- The brackets that wait are tokens in front of the trees since. -/
theorem abandon_eq (opened : List Open) (done : List Tree) :
    abandon opened done = done ++ opened.flatMap fun o => .token o.opening :: o.before := by
  induction opened generalizing done with
  | nil => rw [List.flatMap_nil, List.append_nil]; rfl
  | cons o outer ih =>
    rw [List.flatMap_cons, ← List.append_assoc]
    exact ih _

/-- Grouping keeps all tokens in their order. -/
theorem tokensAll_nest (ts : List Token) (opened : List Open) (done : List Tree) :
    tokensAll (nest opened done ts) = tokensAll (abandon opened done).reverse ++ ts := by
  induction ts generalizing opened done with
  | nil => rw [nest, List.append_nil]
  | cons t rest ih =>
    have hwaits : ∀ (opened : List Open) (tree : Tree) (done : List Tree),
        tokensAll (abandon opened (tree :: done)).reverse =
          tokensAll (abandon opened done).reverse ++ tree.tokens := by
      intro opened tree done
      simp only [abandon_eq, List.cons_append, List.reverse_cons, List.reverse_append,
        tokensAll_append, tokensAll, List.append_nil, List.append_assoc]
    unfold nest
    split
    · rw [ih]
      show tokensAll (abandon opened (.token t :: done)).reverse ++ rest = _
      rw [hwaits, tokens, List.append_assoc, List.singleton_append]
    split
    · cases opened with
      | nil => rw [ih, hwaits, tokens, List.append_assoc, List.singleton_append]
      | cons o outer =>
        have hopen : tokensAll (abandon (o :: outer) done).reverse =
            tokensAll (abandon outer o.before).reverse ++ o.opening :: tokensAll done.reverse := by
          simp only [abandon_eq, List.flatMap_cons, List.cons_append, List.reverse_cons,
            List.reverse_append, tokensAll_append, tokensAll, tokens, List.nil_append,
            List.append_assoc]
        rw [ih, hwaits, hopen, tokens]
        simp only [List.append_assoc, List.cons_append, List.nil_append]
    · rw [ih, hwaits, tokens, List.append_assoc, List.singleton_append]

theorem map_piece_ofPieces (before ps : List Piece) :
    (Token.ofPieces before ps).map Token.piece = ps.filter fun p => !p.isTrivia := by
  induction ps generalizing before with
  | nil => rfl
  | cons p rest ih =>
    rw [Token.ofPieces]
    split
    · rename_i htrivia
      rw [ih, List.filter_cons_of_neg (by simp [htrivia])]
    · rename_i htrivia
      rw [List.map_cons, ih, List.filter_cons_of_pos (by simp [htrivia])]

/-- The tokens of the trees of a source are its pieces that are no trivia. -/
theorem map_piece_ofSource (source : Text.Bytes) :
    (tokensAll (ofSource source)).map Token.piece =
      (Lexer.pieces source).filter fun p => !p.isTrivia := by
  rw [ofSource, tokensAll_nest]
  exact map_piece_ofPieces [] _

/-! ### Trees that follow one another -/

/-- The trees are the end of a list of siblings, at any depth. -/
inductive Tail (us : List Tree) : List Tree → Prop
  | here : Tail us us
  | later {t : Tree} {ts : List Tree} (h : Tail us ts) : Tail us (t :: ts)
  | inside {opening closing : Token} {items ts : List Tree} (h : Tail us items) :
      Tail us (.group opening items closing :: ts)

theorem Tail.trans {us vs ts : List Tree} (h : Tail us vs) (h' : Tail vs ts) : Tail us ts := by
  induction h' with
  | here => exact h
  | later h' ih => exact .later ih
  | inside h' ih => exact .inside ih

theorem Tail.drop (ts : List Tree) (n : Nat) : Tail (ts.drop n) ts := by
  induction ts generalizing n with
  | nil => rw [List.drop_nil]; exact .here
  | cons t ts ih =>
    cases n with
    | zero => exact .here
    | succ n => exact .later (ih n)

/-- What is left behind the first of some siblings stands where they do. -/
theorem Tail.drop_rest {t : Tree} {rest forest : List Tree} (h : Tail (t :: rest) forest) (n : Nat) :
    Tail (rest.drop n) forest :=
  (Tail.drop (t :: rest) (n + 1)).trans h

theorem Tail.items {t : Tree} {ts : List Tree} (h : t ∈ ts) : Tail t.items ts := by
  induction ts with
  | nil => cases h
  | cons u ts ih =>
    rcases List.mem_cons.mp h with rfl | h
    · cases t with
      | token t =>
        have hnil : Tail ((Tree.token t :: ts).drop (ts.length + 1)) (Tree.token t :: ts) :=
          Tail.drop _ _
        rwa [List.drop_eq_nil_of_le (by simp)] at hnil
      | group opening items closing => exact .inside .here
    · exact .later (ih h)

theorem Tail.tokens_sublist {us ts : List Tree} (h : Tail us ts) :
    (tokensAll us).Sublist (tokensAll ts) := by
  induction h with
  | here => exact List.Sublist.refl _
  | later h ih => exact ih.trans (List.sublist_append_right _ _)
  | inside h ih =>
    exact ((ih.trans (List.sublist_append_left _ _)).cons _).trans (List.sublist_append_left _ _)

theorem Tail.tokens_subset {us ts : List Tree} (h : Tail us ts) : tokensAll us ⊆ tokensAll ts :=
  h.tokens_sublist.subset

end Tree

/-! ### Annotations -/

namespace Measure

open Apidoc.Java.Tree

/-- A dotted name is made of words and dots. -/
theorem of_mem_take_dottedTail {ts : List Tree} :
    ∀ t ∈ ts.take (dottedTail ts), t.isWord = true ∨ t.is "." = true := by
  fun_induction dottedTail ts with
  | case1 dot w rest h ih =>
    rw [Bool.and_eq_true] at h
    rw [Nat.add_comm, List.take_succ_cons, List.take_succ_cons]
    exact List.forall_mem_cons.mpr ⟨.inr h.1, List.forall_mem_cons.mpr ⟨.inl h.2, ih⟩⟩
  | case2 => exact nofun
  | case3 => exact nofun

theorem of_mem_take_dotted {ts : List Tree} :
    ∀ t ∈ ts.take (dotted ts), t.isWord = true ∨ t.is "." = true := by
  fun_cases dotted ts with
  | case1 => exact nofun
  | case2 w rest h =>
    rw [Nat.add_comm, List.take_succ_cons]
    exact List.forall_mem_cons.mpr ⟨.inl h, of_mem_take_dottedTail⟩
  | case3 => exact nofun

theorem dottedTail_le (ts : List Tree) : dottedTail ts ≤ ts.length := by
  fun_induction dottedTail ts with
  | case1 dot w rest h ih => simp only [List.length_cons]; omega
  | case2 => exact Nat.zero_le _
  | case3 => exact Nat.zero_le _

theorem dotted_le (ts : List Tree) : dotted ts ≤ ts.length := by
  fun_cases dotted ts with
  | case1 => exact Nat.le_refl _
  | case2 w rest h =>
    have hrest := dottedTail_le rest
    rw [List.length_cons]
    omega
  | case3 => exact Nat.zero_le _

/-- A tree with a text is a token. -/
theorem exists_token_of_is {t : Tree} {text : String} (h : t.is text = true) :
    ∃ token, t = .token token ∧ token.is text = true := by
  cases t with
  | token t => exact ⟨t, rfl, h⟩
  | group opening items closing => cases h

/-- An annotation is its sign, the words and dots of its name, and a group if it has arguments. -/
theorem annotationRun_cases {ts : List Tree} (h : annotationRun ts ≠ 0) :
    ∃ sign name arguments rest, ts = .token sign :: (name ++ (arguments ++ rest)) ∧
      sign.is "@" = true ∧ (∀ t ∈ name, t.isWord = true ∨ t.is "." = true) ∧
      (arguments = [] ∧ name ≠ [] ∨
        ∃ opening items closing, arguments = [.group opening items closing]) ∧
      ts.take (annotationRun ts) = .token sign :: (name ++ arguments) := by
  cases ts with
  | nil => exact absurd rfl h
  | cons t rest =>
    have hname : ∀ t ∈ rest.take (dotted rest), t.isWord = true ∨ t.is "." = true :=
      of_mem_take_dotted
    have hle := dotted_le rest
    rw [annotationRun] at h ⊢
    generalize dotted rest = n at h hname hle ⊢
    split at h
    · rename_i hsign
      rw [Bool.and_eq_true, decide_eq_true_eq] at hsign
      obtain ⟨sign, rfl, hsign'⟩ := exists_token_of_is hsign.1
      rw [if_pos (by simp [hsign])]
      have hne : rest.take n ≠ [] := by
        rw [← List.length_pos_iff, List.length_take_of_le hle]
        exact Nat.pos_of_ne_zero hsign.2
      -- The arguments are in the group behind the name, if there is one.
      by_cases hgroup : (rest.drop n).head?.any (·.isGroup "(") = true
      · rw [if_pos hgroup]
        cases hafter : rest.drop n with
        | nil =>
          rw [hafter] at hgroup
          cases hgroup
        | cons g after =>
          rw [hafter] at hgroup
          cases g with
          | token t => cases hgroup
          | group opening items closing =>
            refine ⟨sign, rest.take n, [.group opening items closing], after, ?_, hsign', hname,
              .inr ⟨_, _, _, rfl⟩, ?_⟩
            · rw [List.singleton_append, ← hafter, List.take_append_drop]
            · rw [List.take_succ_cons, List.take_add, hafter]
              rfl
      · rw [if_neg hgroup]
        refine ⟨sign, rest.take n, [], rest.drop n, ?_, hsign', hname, .inl ⟨rfl, hne⟩, ?_⟩
        · rw [List.nil_append, List.take_append_drop]
        · rw [List.take_succ_cons, List.append_nil]
    · exact absurd rfl h

end Measure

namespace Tree

open Apidoc.Java.Measure Apidoc.Java.Reader

/-- The first token of a source before the second one. -/
abbrev Before (t u : Token) : Prop := t.piece.stop ≤ u.piece.start

/-- The tokens follow one another, and none of them is empty. -/
structure Ordered (ts : List Tree) : Prop where
  pairwise : (tokensAll ts).Pairwise Before
  positive : ∀ t ∈ tokensAll ts, t.piece.start < t.piece.stop
  sign : ∀ t ∈ tokensAll ts, t.isWord = true ∨ t.is "." = true → ¬ t.is "@" = true

/-- A run of trees reaches from one of its tokens to another. -/
theorem exists_span (t : Tree) (rest : List Tree) :
    ∃ last ∈ tokensAll (t :: rest), span (t :: rest) = ⟨t.start, last.piece.stop⟩ := by
  have hlast := List.getLast_mem (List.cons_ne_nil t rest)
  refine ⟨_, tokens_subset_of_mem hlast (last_mem_tokens _), ?_⟩
  rw [span, List.getLast?_eq_some_getLast (List.cons_ne_nil t rest)]
  rfl

variable {us vs ts : List Tree} {t : Tree} {opening closing : Token} {items : List Tree}

theorem Ordered.of_sublist (h : Ordered ts) (hsub : (tokensAll us).Sublist (tokensAll ts)) :
    Ordered us :=
  ⟨h.pairwise.sublist hsub, fun u hu => h.positive u (hsub.subset hu),
    fun u hu => h.sign u (hsub.subset hu)⟩

theorem Ordered.later (h : Ordered (t :: ts)) : Ordered ts :=
  h.of_sublist (List.sublist_append_right _ _)

theorem Ordered.inside (h : Ordered (.group opening items closing :: ts)) : Ordered items :=
  h.of_sublist (((List.sublist_append_left _ _).cons _).trans (List.sublist_append_left _ _))

/-- A tree stops before the trees behind it start. -/
theorem Ordered.before (h : Ordered (t :: ts)) {a b : Token} (ha : a ∈ t.tokens)
    (hb : b ∈ tokensAll ts) : Before a b :=
  (List.pairwise_append.mp h.pairwise).2.2 a ha b hb

/-- The first of some trees starts before any of their tokens stops. -/
theorem Ordered.start_lt (h : Ordered (t :: ts)) {last : Token}
    (hlast : last ∈ tokensAll (t :: ts)) : t.start < last.piece.stop := by
  obtain ⟨more, htokens⟩ : ∃ more, tokensAll (t :: ts) = t.first :: more := by
    cases t with
    | token u => exact ⟨_, rfl⟩
    | group opening items closing => exact ⟨_, rfl⟩
  have hpairwise := h.pairwise
  have hpositive := h.positive last hlast
  rw [htokens] at hlast hpairwise
  rcases List.mem_cons.mp hlast with rfl | hlast
  · exact hpositive
  · have hfirst := h.positive t.first (htokens ▸ List.mem_cons_self)
    have hbefore := List.rel_of_pairwise_cons hpairwise hlast
    exact hfirst.trans_le (hbefore.trans hpositive.le)

/-- The tokens of a source are pieces of it. -/
theorem piece_mem_of_mem_tokens {source : Text.Bytes} {t : Token}
    (h : t ∈ tokensAll (ofSource source)) :
    t.piece ∈ Lexer.pieces source ∧ t.piece.isTrivia = false := by
  have hmem := List.mem_map_of_mem (f := Token.piece) h
  rw [map_piece_ofSource, List.mem_filter, Bool.not_eq_true'] at hmem
  exact hmem

/-- The tokens of a source follow one another. -/
theorem ordered_ofSource (source : Text.Bytes) : Ordered (ofSource source) := by
  refine ⟨?_, fun t ht => (Lexer.bounds_of_mem_pieces (piece_mem_of_mem_tokens ht).1).1,
    fun t ht hname hsign => ?_⟩
  · have hpairwise := (Lexer.pairwise_pieces source).filter fun p => !p.isTrivia
    rw [← map_piece_ofSource, List.pairwise_map] at hpairwise
    exact hpairwise
  · have htext : t.piece.text = Text.encode "@" := of_decide_eq_true hsign
    rcases hname with hword | hdot
    · have hkind : t.piece.kind = .word := of_decide_eq_true hword
      have hstands :=
        Lexer.standsIn_of_mem_pieces (piece_mem_of_mem_tokens ht).1 (by rw [hkind]; nofun)
      have hfits := hstands.2
      rw [hkind, htext] at hfits
      exact Lexer.not_sign_of_fits hfits
    · have hdot : t.piece.text = Text.encode "." := of_decide_eq_true hdot
      exact absurd (htext.symm.trans hdot) (by decide)

/-- The bytes of the annotation that the trees begin with. -/
def annotationSpan (ts : List Tree) : Span := span (ts.take (annotationRun ts))

/-- An annotation reaches from its sign to one of the tokens. -/
theorem exists_annotationSpan (h : annotationRun us ≠ 0) :
    ∃ sign rest, us = .token sign :: rest ∧ sign.is "@" = true ∧ ∃ last ∈ tokensAll us,
      annotationSpan us = ⟨sign.piece.start, last.piece.stop⟩ := by
  obtain ⟨sign, name, arguments, rest, hus, hsign, -, -, hrun⟩ := annotationRun_cases h
  obtain ⟨last, hlast, hspan⟩ := exists_span (.token sign) (name ++ arguments)
  refine ⟨sign, _, hus, hsign, last, ?_, by rw [annotationSpan, hrun, hspan]; rfl⟩
  rw [hus, ← List.append_assoc, ← List.cons_append, tokensAll_append]
  exact List.mem_append_left _ hlast

/-- An annotation with arguments reaches to the closing parenthesis. -/
theorem stop_annotationSpan {sign : Token} {name : List Tree}
    (h : us.take (annotationRun us) = .token sign :: (name ++ [.group opening items closing])) :
    (annotationSpan us).stop = closing.piece.stop := by
  rw [annotationSpan, h, span, ← List.cons_append, List.getLast?_concat]
  rfl

/-- No annotation begins inside a name. -/
theorem Tail.of_name {name rest : List Tree} (hF : Ordered (name ++ rest))
    (h : Tail us (name ++ rest))
    (hname : ∀ t ∈ name, t.isWord = true ∨ t.is "." = true) (hrun : annotationRun us ≠ 0) :
    Tail us rest := by
  induction name with
  | nil => exact h
  | cons t name ih =>
    have ht := hname t List.mem_cons_self
    cases h with
    | here =>
      obtain ⟨sign, rest, heq, hsign, -⟩ := exists_annotationSpan hrun
      obtain ⟨rfl, -⟩ := List.cons.inj heq
      exact absurd hsign (hF.sign sign List.mem_cons_self ht)
    | later h => exact ih hF.later h fun u hu => hname u (List.mem_cons_of_mem t hu)
    | inside h => rcases ht with ht | ht <;> cases ht

/-- An annotation that begins inside another one stands between its parentheses. -/
theorem nested_of_tail (hF : Ordered us) (hu : annotationRun us ≠ 0) (hv : annotationRun vs ≠ 0)
    (h : Tail vs us) (hne : us ≠ vs)
    (hstop : (annotationSpan vs).start < (annotationSpan us).stop) :
    ∃ c ∈ tokensAll us, (annotationSpan vs).stop ≤ c.piece.start ∧
      c.piece.stop ≤ (annotationSpan us).stop := by
  obtain ⟨sign, name, arguments, rest, rfl, -, hname, harguments, hrun⟩ := annotationRun_cases hu
  obtain ⟨first, rest', hvs, -, last, hlast, hspan⟩ := exists_annotationSpan hv
  have hfirst : first ∈ tokensAll vs := hvs ▸ List.mem_cons_self
  have hsplit : Tree.token sign :: (name ++ (arguments ++ rest)) =
      (.token sign :: (name ++ arguments)) ++ rest := by
    rw [List.cons_append, List.append_assoc]
  -- Behind the first annotation the second one would not begin within it.
  have hbehind : ¬ Tail vs rest := by
    intro htail
    obtain ⟨final, hfinal, hspan'⟩ := exists_span (.token sign) (name ++ arguments)
    have hpairwise := hF.pairwise
    rw [hsplit, tokensAll_append] at hpairwise
    have hbefore : Before final first :=
      (List.pairwise_append.mp hpairwise).2.2 final hfinal first (htail.tokens_subset hfirst)
    rw [hspan, annotationSpan, hrun, hspan'] at hstop
    exact absurd hbefore (Nat.not_le_of_lt hstop)
  cases h with
  | here => exact absurd rfl hne
  | later h =>
    have htail := Tail.of_name hF.later h hname hv
    rcases harguments with ⟨rfl, -⟩ | ⟨opening, items, closing, rfl⟩
    · exact absurd htail hbehind
    · cases htail with
      | here => cases hvs
      | later htail => exact absurd htail hbehind
      | inside htail =>
        -- The token behind the second annotation closes the arguments of the first one.
        have hgroup := tokens_sublist (.token sign :: name) rest (.group opening items closing)
        have hbefore : Before last closing := by
          have hpairwise := hF.pairwise.sublist hgroup
          rw [tokens, List.pairwise_cons, List.pairwise_append] at hpairwise
          exact hpairwise.2.2.2 last (htail.tokens_subset hlast) closing (List.mem_singleton_self _)
        refine ⟨closing, hgroup.subset (last_mem_tokens (.group opening items closing)), ?_, ?_⟩
        · rw [hspan]
          exact hbefore
        · rw [stop_annotationSpan hrun]

/-- Of two annotations, one that begins in the other lies before a token of it. -/
theorem nested (hF : Ordered ts) (hu : Tail us ts) (hv : Tail vs ts)
    (hurun : annotationRun us ≠ 0) (hvrun : annotationRun vs ≠ 0)
    (hstart : (annotationSpan us).start ≤ (annotationSpan vs).start)
    (hstop : (annotationSpan vs).start < (annotationSpan us).stop) :
    us = vs ∨ ∃ c ∈ tokensAll ts, (annotationSpan vs).stop ≤ c.piece.start ∧
      c.piece.stop ≤ (annotationSpan us).stop := by
  -- The induction leads to the place where the two part, or where the second one begins within
  -- the first one.
  obtain ⟨first, rest, hus, -, last, hlast, hspan⟩ := exists_annotationSpan hurun
  obtain ⟨first', rest', hvs, -, last', hlast', hspan'⟩ := exists_annotationSpan hvrun
  have hfirst : first ∈ tokensAll us := hus ▸ List.mem_cons_self
  have hfirst' : first' ∈ tokensAll vs := hvs ▸ List.mem_cons_self
  rw [hspan, hspan'] at hstart hstop
  dsimp only at hstart hstop
  induction hu with
  | here =>
    by_cases heq : us = vs
    · exact .inl heq
    · exact .inr (nested_of_tail hF hurun hvrun hv heq (by rw [hspan, hspan']; exact hstop))
  | @later t ts hu ih =>
    cases hv with
    | here =>
      -- The second one stands before the first one.
      obtain ⟨rfl, -⟩ := List.cons.inj hvs
      have hbefore : first'.piece.stop ≤ first.piece.start :=
        hF.before (List.mem_singleton_self _) (hu.tokens_subset hfirst)
      have hpositive := hF.positive first' hfirst'
      omega
    | later hv =>
      refine (ih hF.later hv).imp_right ?_
      rintro ⟨c, hc, hbounds⟩
      exact ⟨c, List.mem_append_right _ hc, hbounds⟩
    | inside hv =>
      have hmem := hv.tokens_subset hfirst'
      have hbefore : first'.piece.stop ≤ first.piece.start := hF.before
        (List.mem_cons_of_mem _ (List.mem_append_left _ hmem)) (hu.tokens_subset hfirst)
      have hpositive := hF.inside.positive first' hmem
      omega
  | @inside opening closing items ts hu ih =>
    cases hv with
    | here => cases hvs
    | later hv =>
      -- The second one stands behind the first one.
      have hbefore : last.piece.stop ≤ first'.piece.start := hF.before
        (List.mem_cons_of_mem _ (List.mem_append_left _ (hu.tokens_subset hlast)))
        (hv.tokens_subset hfirst')
      omega
    | inside hv =>
      refine (ih hF.inside hv).imp_right ?_
      rintro ⟨c, hc, hbounds⟩
      have hmem : c ∈ opening :: (tokensAll items ++ [closing]) :=
        List.mem_cons_of_mem opening (List.mem_append_left _ hc)
      exact ⟨c, List.mem_append_left _ hmem, hbounds⟩

end Tree

namespace Reader

/-- The body of a type is what one of the trees holds. -/
theorem body_of_typeHead? {ts : List Tree} {start n : Nat} {front : List (List Tree)}
    {head : TypeSyntax} {body : List Tree}
    (h : typeHead? start front ts = some (head, body, n)) :
    ∃ t ∈ ts, body = t.items := by
  unfold typeHead? at h
  obtain ⟨kind, -, h⟩ := Option.bind_eq_some_iff.mp h
  obtain ⟨last, hlast, h⟩ := Option.bind_eq_some_iff.mp h
  cases h
  exact ⟨last, List.mem_of_mem_drop (List.mem_of_head? hlast), rfl⟩

end Reader

end Apidoc.Java
