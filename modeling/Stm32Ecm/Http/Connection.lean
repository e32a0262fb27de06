import Stm32Ecm.Http.Sending
import Stm32Ecm.Library.Run

/-!
What a client receives of a page, whatever happens to the connection between the callbacks, and
whichever writes are refused.  A request without an HTTP version gets the file without its header;
for a page with tags that is left out, since the search for tags starts at the header all the same.

* `HttpState.Inv`: the invariant between two callbacks; `step_spec`: a callback keeps it;
* `callback_returns`: no callback loops forever;
* `sent_extends_run`: the client always has the beginning of the page, and the handler was asked
  for the tags in order, once each;
* `sent_of_eof`, `fill_of_eof`: what the client has when the end of the file closes the connection;
* `not_eof_of_tag`: a page that ends with a text and a tag is not closed by the end of the file;
* `page_arrives`: a page that does not end with a tag arrives, if the connection is ready often
  enough; `plain_page`: pages without tags.
-/

namespace Stm32Ecm.Http

open Transition

variable {σ : Type*} {tcp : Tcp σ} {data : List UInt8} {h k : HttpState σ} {w : σ}
  {is09 tagCheck allocated : Bool} {start : ℕ} {cs : List (Callback σ)} {c : Callback σ}

/-! ### The invariant -/

/-- What has been sent of a page, with tags or without; a page without tags is sent from `start`
on. -/
def HttpState.Inv (data : List UInt8) (start : ℕ) (h : HttpState σ) : Prop :=
  match h.ssi with
  | some ssi => Boundary data (h.sending ssi)
  | none => start ≤ h.file ∧ h.file + h.left = data.length ∧ h.sent = slice data start h.file ∧
      h.tags = []

/-- What is left of the work on the page. -/
def HttpState.work (h : HttpState σ) : ℕ :=
  match h.ssi with
  | some ssi => (h.sending ssi).work
  | none => h.left

/-- The pcb as a callback finds it. -/
def Callback.pcb : Callback σ → σ
  | .sent w => w
  | .poll w => w

lemma boundary_initial : Boundary data
    ((httpInitFile data w false true true).sending (Ssi.initial data)) := by
  refine Or.inl ⟨?_, Or.inr rfl⟩
  have hpage : ((httpInitFile data w false true true).sending (Ssi.initial data)).page data =
      Page.empty := by
    change readPage [] (data.take (data.length - data.length)) = Page.empty
    rw [Nat.sub_self, List.take_zero]
    rfl
  exact
    { parseLeft := le_rfl
      left := Nat.zero_add _
      names := by rw [hpage]; rfl
      inserts := fun t ht => by cases ht
      state := by simp [HttpState.sending, Ssi.initial]
      bounded := trivial
      parsed := Nat.zero_add _
      scan := by rw [hpage]; rfl
      file := le_rfl
      sent := by
        rw [hpage]
        exact congrArg _ slice_self
      tag := fun hs => absurd rfl hs
      behind := fun _ => Or.inl rfl
      last := fun h0 => by
        rw [List.eq_nil_of_length_eq_zero h0]
        exact not_endsWithTag_nil }

/-- A token lies inside the bytes it is found in. -/
lemma strnstr_le {token l : List UInt8} {i : ℕ} (h : strnstr token l = some i) :
    i + token.length ≤ l.length := by
  induction l generalizing i with
  | nil => cases h
  | cons c l ih =>
      rw [strnstr] at h
      split_ifs at h with hzero hprefix
      · obtain rfl : 0 = i := Option.some.inj h
        rw [Nat.zero_add]
        exact (List.isPrefixOf_iff_prefix.mp hprefix).length_le
      · obtain ⟨j, hj, rfl⟩ := Option.map_eq_some_iff.mp h
        have hle := ih hj
        rw [List.length_cons]
        omega

lemma headerSkipped_le : headerSkipped data is09 ≤ data.length := by
  rw [headerSkipped]
  split_ifs
  · cases hfound : strnstr crlfCrlf data with
    | none => exact Nat.zero_le _
    | some fileStart => exact strnstr_le hfound
  · exact Nat.zero_le _

lemma inv_init (hv : is09 = false ∨ (tagCheck && allocated) = false) :
    (httpInitFile data w is09 tagCheck allocated).Inv data (headerSkipped data is09) := by
  rw [HttpState.Inv, httpInitFile]
  by_cases htag : (tagCheck && allocated) = true
  · obtain rfl : is09 = false := hv.resolve_right fun h => by rw [htag] at h; cases h
    rw [if_pos htag]
    exact boundary_initial
  · rw [if_neg htag]
    exact ⟨le_rfl, Nat.add_sub_cancel' headerSkipped_le, slice_self.symm, rfl⟩

lemma work_init (hv : is09 = false ∨ (tagCheck && allocated) = false) :
    (httpInitFile data w is09 tagCheck allocated).work ≤ 41 * data.length := by
  rw [HttpState.work, httpInitFile]
  by_cases htag : (tagCheck && allocated) = true
  · obtain rfl : is09 = false := hv.resolve_right fun h => by rw [htag] at h; cases h
    rw [if_pos htag]
    change 40 * data.length + data.length + 0 ≤ _
    omega
  · rw [if_neg htag]
    change data.length - headerSkipped data is09 ≤ _
    omega

/-! ### A callback -/

/-- The pcb does not matter. -/
lemma HttpState.Inv.frame (hinv : h.Inv data start) (hssi : k.ssi = h.ssi) (hfile : k.file = h.file)
    (hleft : k.left = h.left) (hsent : k.sent = h.sent) (htags : k.tags = h.tags) :
    k.Inv data start ∧ k.work = h.work := by
  rw [HttpState.Inv] at hinv ⊢
  rw [HttpState.work, HttpState.work, hssi]
  cases hcase : h.ssi with
  | none =>
      rw [hcase] at hinv
      dsimp only at hinv ⊢
      rw [hfile, hleft, hsent, htags]
      exact ⟨hinv, rfl⟩
  | some ssi =>
      rw [hcase] at hinv
      refine Boundary.frame hinv ⟨rfl, htags, hfile, hleft, ?_⟩
      rw [Nat.add_zero, slice_self, List.append_nil]
      exact hsent

/-- A page without tags: more of it is sent. -/
lemma httpSendDataNonssi_spec (tcp : Tcp σ) (hssi : h.ssi = none) (hinv : h.Inv data start) :
    ∃ h', httpSendData tcp data h = some h' ∧ h'.Inv data start ∧ h'.work ≤ h.work ∧
      (Ready tcp h.pcb → h.left ≠ 0 → h'.work < h.work) ∧ h'.ssi = none ∧
        h'.closed = h.closed := by
  rw [HttpState.Inv, hssi] at hinv
  obtain ⟨hstart, hfile, hsent, htags⟩ := hinv
  generalize hu : ({ h.sending (Ssi.initial data) with
    ssi := { Ssi.initial data with parsed := h.file + h.left }
    err := .ok
    dataToSend := false } : Sending σ) = u
  have huparsed : u.ssi.parsed = u.file + u.left := by rw [← hu]; rfl
  have hufile : u.file = h.file := by rw [← hu]; rfl
  have huleft : u.left = h.left := by rw [← hu]; rfl
  have husent : u.sent = h.sent := by rw [← hu]; rfl
  have hutags : u.tags = h.tags := by rw [← hu]; rfl
  have hupcb : u.pcb = h.pcb := by rw [← hu]; rfl
  obtain ⟨k, m, hk, -, hok⟩ := sendParsed_spec tcp data (s := u) (by omega)
  have hsend : httpSendData tcp data h = some (h.after (u.sendParsed tcp data)) := by
    rw [httpSendData, hssi]
    dsimp only
    rw [httpSendDataNonssi, ← hu]
    rfl
  rw [hsend]
  have hwork : (h.after (u.sendParsed tcp data)).work + k = h.work := by
    rw [HttpState.work, HttpState.work, HttpState.after, hssi]
    dsimp only
    rw [m.left]
    omega
  refine ⟨_, rfl, ?_, by omega, fun hr hleft => ?_, hssi, rfl⟩
  · rw [HttpState.Inv, HttpState.after, hssi]
    dsimp only
    rw [m.file, m.left, m.sent, m.tags, hufile, huleft, husent, hutags, hsent,
      slice_append hstart (Nat.le_add_right _ _)]
    exact ⟨by omega, by omega, rfl, htags⟩
  · have hfile' : u.file < data.length := by omega
    obtain ⟨he, hl⟩ := Ready.sendParsed (hupcb ▸ hr) (by omega) hfile'
    have hlen := hok he
    omega

/-- **A send function returns**, and makes progress if the connection is ready. -/
lemma httpSendData_spec (tcp : Tcp σ) (hinv : h.Inv data start) (hdata : data.length < 65536) :
    ∃ h', httpSendData tcp data h = some h' ∧ h'.Inv data start ∧ h'.work ≤ h.work ∧
      (Ready tcp h.pcb → h.left ≠ 0 → (h.ssi.isSome → ¬ EndsWithTag data) → h'.work < h.work) ∧
        h'.ssi.isSome = h.ssi.isSome ∧ h'.closed = h.closed := by
  cases hssi : h.ssi with
  | none =>
      obtain ⟨h', hsend, hinv', hle, hlt, hssi', hclosed⟩ :=
        httpSendDataNonssi_spec tcp hssi hinv
      exact ⟨h', hsend, hinv', hle, fun hr hleft _ => hlt hr hleft, by rw [hssi'], hclosed⟩
  | some ssi =>
      rw [HttpState.Inv, hssi] at hinv
      obtain ⟨t, ht, hbt, hle, hlt⟩ := httpSendDataSsi_spec tcp hinv hdata
      have hmoved : Moved data t (({ h.after t with ssi := some t.ssi } : HttpState σ).sending
          t.ssi) 0 := by
        refine ⟨rfl, rfl, rfl, rfl, ?_⟩
        rw [Nat.add_zero, slice_self, List.append_nil]
        rfl
      obtain ⟨hinv', hwork⟩ := hbt.frame hmoved
      refine ⟨{ h.after t with ssi := some t.ssi }, ?_, hinv', ?_, fun hr hleft hends => ?_, rfl,
        rfl⟩
      · rw [httpSendData, hssi]
        dsimp only
        rw [ht]
        rfl
      · rw [HttpState.work, HttpState.work, hssi]
        exact hwork.le.trans hle
      · rw [HttpState.work, HttpState.work, hssi]
        exact hwork.trans_lt (hlt hr hleft (hends rfl))

/-- `http_send` closes the connection exactly at the end of the file. -/
lemma httpSend_spec (tcp : Tcp σ) (hinv : h.Inv data start) (hdata : data.length < 65536)
    (hopen : h.closed = none) :
    ∃ h', httpSend tcp data h = some h' ∧ h'.Inv data start ∧ h'.work ≤ h.work ∧
      h'.ssi.isSome = h.ssi.isSome ∧ (h'.closed = none ∨ h'.closed = some .eof ∧ h'.left = 0) ∧
        (h'.closed = none → Ready tcp h.pcb → (h.ssi.isSome → ¬ EndsWithTag data) →
          h'.work < h.work) := by
  have hcheck : ∀ u : HttpState σ, u.Inv data start → u.closed = none →
      u.checkEof.Inv data start ∧ u.checkEof.work = u.work ∧ u.checkEof.ssi = u.ssi ∧
        (u.checkEof.closed = none ∨ u.checkEof.closed = some .eof ∧ u.checkEof.left = 0) :=
    fun u hu hclosed => by
      rw [HttpState.checkEof]
      split_ifs with hleft
      · obtain ⟨hinv', hwork⟩ := hu.frame (k := { u with closed := some .eof }) rfl rfl rfl rfl rfl
        exact ⟨hinv', hwork, rfl, Or.inr ⟨rfl, hleft⟩⟩
      · exact ⟨hu, rfl, rfl, Or.inl hclosed⟩
  rw [httpSend]
  split_ifs with hleft
  · obtain ⟨hinv', hwork, hssi, hend⟩ := hcheck h hinv hopen
    refine ⟨_, rfl, hinv', hwork.le, by rw [hssi], hend, fun hnone => ?_⟩
    rw [HttpState.checkEof, if_pos hleft] at hnone
    cases hnone
  · obtain ⟨u, hu, huinv, hle, hlt, hssi, hclosed⟩ := httpSendData_spec tcp hinv hdata
    obtain ⟨hinv', hwork, hssi', hend⟩ := hcheck u huinv (hclosed.trans hopen)
    refine ⟨u.checkEof, by rw [hu]; rfl, hinv', hwork.le.trans hle, by rw [hssi', hssi], hend,
      fun _ hr hends => hwork.trans_lt (hlt hr hleft hends)⟩

/-- **A callback returns.** -/
lemma step_spec (tcp : Tcp σ) (hinv : h.Inv data start) (hdata : data.length < 65536)
    (hopen : h.closed = none) (c : Callback σ) :
    ∃ h', h.step tcp data c = some h' ∧ h'.Inv data start ∧ h'.work ≤ h.work ∧
      h'.ssi.isSome = h.ssi.isSome ∧ (h'.closed = some .eof → h'.left = 0) ∧
        (∀ w, c = .sent w → h'.closed ≠ some .retries) ∧
          (h'.closed = none → Ready tcp c.pcb → (h.ssi.isSome → ¬ EndsWithTag data) →
            h'.work < h.work) := by
  have hsend : ∀ w n, ∃ h',
      httpSend tcp data { h with pcb := w, retries := n } = some h' ∧ h'.Inv data start ∧
        h'.work ≤ h.work ∧ h'.ssi.isSome = h.ssi.isSome ∧
          (h'.closed = none ∨ h'.closed = some .eof ∧ h'.left = 0) ∧
            (h'.closed = none → Ready tcp w → (h.ssi.isSome → ¬ EndsWithTag data) →
              h'.work < h.work) := fun w n => by
    obtain ⟨hinv', hwork⟩ :=
      hinv.frame (k := { h with pcb := w, retries := n }) rfl rfl rfl rfl rfl
    rw [← hwork]
    exact httpSend_spec tcp hinv' hdata hopen
  have hnot : ¬ h.closed.isSome = true := by simp [hopen]
  cases c with
  | sent w =>
      obtain ⟨h', hsome, hinv', hle, hssi, hend, hlt⟩ := hsend w 0
      refine ⟨h', ?_, hinv', hle, hssi, fun he => ?_, fun v _ he => ?_, hlt⟩
      · rw [HttpState.step, if_neg hnot]
        exact hsome
      · rcases hend with hnone | ⟨-, hleft⟩
        · rw [hnone] at he
          cases he
        · exact hleft
      · rcases hend with hnone | ⟨heof, -⟩
        · rw [hnone] at he
          cases he
        · rw [heof] at he
          cases he
  | poll w =>
      by_cases hretries : h.retries + 1 = httpdMaxRetries
      · obtain ⟨hinv', hwork⟩ := hinv.frame
          (k := { h with pcb := w, retries := h.retries + 1, closed := some .retries })
          rfl rfl rfl rfl rfl
        refine ⟨_, ?_, hinv', hwork.le, rfl, nofun, nofun, nofun⟩
        rw [HttpState.step, if_neg hnot, if_pos hretries]
      · obtain ⟨h', hsome, hinv', hle, hssi, hend, hlt⟩ := hsend w (h.retries + 1)
        refine ⟨h', ?_, hinv', hle, hssi, fun he => ?_, nofun, hlt⟩
        · rw [HttpState.step, if_neg hnot, if_neg hretries]
          exact hsome
        · rcases hend with hnone | ⟨-, hleft⟩
          · rw [hnone] at he
            cases he
          · exact hleft

/-! ### The page and its beginning -/

section Prefix

variable {inserts : List (List UInt8)}

lemma push_extends (inserts : List (List UInt8)) (p : Page) (c : UInt8) :
    p.done <+: (p.push inserts c).done ∧ p.names <+: (p.push inserts c).names := by
  rcases push_cases inserts p c with ⟨n, -, hp⟩ | ⟨-, hp⟩ | ⟨s, -, -, hp⟩
  · rw [hp]
    exact ⟨List.prefix_append _ _, List.prefix_append _ _⟩
  · rw [hp, List.append_assoc]
    exact ⟨List.prefix_append _ _, List.prefix_rfl⟩
  · rw [hp]
    exact ⟨List.prefix_rfl, List.prefix_rfl⟩

/-- What has been read stays, apart from a tag that is not complete. -/
lemma foldl_extends (inserts : List (List UInt8)) (p : Page) (l : List UInt8) :
    p.done <+: (l.foldl (Page.push inserts) p).done ∧
      p.names <+: (l.foldl (Page.push inserts) p).names := by
  induction l generalizing p with
  | nil => exact ⟨List.prefix_rfl, List.prefix_rfl⟩
  | cons c l ih =>
      obtain ⟨hdone, hnames⟩ := push_extends inserts p c
      obtain ⟨hdone', hnames'⟩ := ih (p.push inserts c)
      exact ⟨hdone.trans hdone', hnames.trans hnames'⟩

lemma done_prefix_expand (n : ℕ) :
    (readPage inserts (data.take n)).done <+: expand inserts data ∧
      (readPage inserts (data.take n)).names <+: tagNames data := by
  obtain ⟨hdone, hnames⟩ := foldl_extends inserts
    (readPage inserts (data.take n)) (data.drop n)
  have hwhole : (data.drop n).foldl (Page.push inserts) (readPage inserts (data.take n)) =
      readPage inserts data := by
    rw [readPage, ← List.foldl_append, List.take_append_drop, readPage]
  rw [hwhole] at hdone hnames
  rw [expand, Page.bytes, tagNames, ← (readPage_frame inserts [] data).2.2]
  exact ⟨hdone.trans (List.prefix_append _ _), hnames⟩

end Prefix

/-- What has been sent belongs to the page, whatever the inserts of the tags to come are. -/
lemma Boundary.sent_extends {s : Sending σ} (h : Boundary data s) (more : List (List UInt8)) :
    s.sent <+: expand (s.tags.map Prod.snd ++ more) data := by
  have hnames : (s.page data).names.length ≤ (s.tags.map Prod.snd).length := by
    rcases h with ⟨hs, -⟩ | hs <;> rw [hs.names, List.length_map, List.length_map]
  have hdone : (s.page data).done <+: expand (s.tags.map Prod.snd ++ more) data := by
    rw [Sending.page, ← readPage_append more hnames]
    exact (done_prefix_expand _).1
  rcases h with ⟨hs, hend⟩ | hs
  · by_cases h0 : s.ssi.parseLeft = 0
    · have hwhole : s.page data = readPage (s.tags.map Prod.snd) data := by
        rw [Sending.page, h0, Nat.sub_zero, List.take_length]
      rw [hwhole] at hnames
      rw [expand, readPage_append _ hnames, ← hwhole, ← hs.sent]
      exact List.prefix_append _ _
    · have hfile := hend.resolve_left h0
      have hheld : (s.page data).held = [] :=
        held_eq_nil (hs.scan.trans (hs.scan_text h0 hfile.ge))
      have hsent := hs.sent
      rw [hfile, slice_self, List.append_nil, Page.bytes, hheld, List.append_nil] at hsent
      rw [hsent]
      exact hdone
  · refine List.IsPrefix.trans ?_ hdone
    rcases hs.sent with ⟨-, -, hsent⟩ | ⟨-, -, hsent⟩
    · rw [← hsent, List.append_assoc]
      exact List.prefix_append _ _
    · rw [← hsent]
      exact List.prefix_append _ _

/-! ### The end of the page -/

/-- What has been sent when nothing is left of the file. -/
lemma Boundary.sent_of_left {s : Sending σ} (h : Boundary data s) (hleft : s.left = 0) :
    s.tags.map Prod.fst = tagNames data ∧
      (¬ EndsWithTag data → s.sent = expand (s.tags.map Prod.snd) data) ∧
        (EndsWithTag data →
          (∃ insert, (s.tags.map Prod.snd).getLast? = some insert ∧
            s.sent ++ insert = expand (s.tags.map Prod.snd) data) ∧
          ∃ d, d + (readPage [] (data.take (data.length - 1))).held.length + 1 = data.length ∧
            (d = 0 ∨ EndsWithTag (data.take d))) := by
  have hfile := h.left
  have hwhole : s.ssi.parseLeft = 0 → s.page data = readPage (s.tags.map Prod.snd) data :=
    fun h0 => by rw [Sending.page, h0, Nat.sub_zero, List.take_length]
  have hnames : s.ssi.parseLeft = 0 → s.tags.map Prod.fst = tagNames data := fun h0 => by
    rw [tagNames, ← (readPage_frame (s.tags.map Prod.snd) [] data).2.2, ← hwhole h0]
    rcases h with ⟨hs, -⟩ | hs
    · exact hs.names.symm
    · exact hs.names.symm
  rcases h with ⟨hs, -⟩ | hs
  · have hparsed := hs.parsed
    have hle := hs.file
    have h0 : s.ssi.parseLeft = 0 := by omega
    have hend : s.file = s.ssi.parsed := by omega
    refine ⟨hnames h0, fun _ => ?_, fun hends => absurd hends (hs.last h0)⟩
    have hsent := hs.sent
    rw [hend, slice_self, List.append_nil, hwhole h0] at hsent
    exact hsent
  · have htag := hs.tagEnd
    have hstarted := hs.started
    obtain ⟨hend, -, hsent⟩ : s.file = s.ssi.tagEnd ∧ _ := by
      rcases hs.sent with ⟨hle, -, -⟩ | hsent
      · omega
      · exact hsent
    have h0 : s.ssi.parseLeft = 0 := by omega
    have hlen : s.ssi.tagEnd = data.length := by omega
    have hends := hs.ends
    rw [hlen, List.take_length] at hends
    refine ⟨hnames h0, fun hnot => absurd hends hnot, fun _ =>
      ⟨⟨_, hs.insert, ?_⟩, s.ssi.tagStarted, hlen ▸ hs.start, hs.lost h0 hend⟩⟩
    have hheld : (s.page data).held = [] := held_eq_nil hs.scan
    rw [hs.last h0, List.drop_zero] at hsent
    rw [expand, ← hwhole h0, Page.bytes, hheld, List.append_nil, hsent]

/-! ### Runs -/

/-- What every run preserves; `tags` tells whether tags are looked for. -/
structure HttpState.Reached (data : List UInt8) (start : ℕ) (tags : Bool) (h : HttpState σ) :
    Prop where
  inv : h.Inv data start
  ssi : h.ssi.isSome = tags
  eof : h.closed = some .eof → h.left = 0

lemma reached_init (hv : is09 = false ∨ (tagCheck && allocated) = false) :
    (httpInitFile data w is09 tagCheck allocated).Reached data (headerSkipped data is09)
      (tagCheck && allocated) where
  inv := inv_init hv
  ssi := by
    rw [httpInitFile]
    cases tagCheck <;> cases allocated <;> rfl
  eof := nofun

lemma run_spec (hdata : data.length < 65536)
    (hv : is09 = false ∨ (tagCheck && allocated) = false)
    (hrun : run (HttpState.step tcp data) (httpInitFile data w is09 tagCheck allocated) cs =
      some h) :
    h.Reached data (headerSkipped data is09) (tagCheck && allocated) := by
  have hstep : ∀ (s : HttpState σ) (e : Callback σ) (t : HttpState σ), True →
      s.Reached data (headerSkipped data is09) (tagCheck && allocated) →
        s.step tcp data e = some t →
          t.Reached data (headerSkipped data is09) (tagCheck && allocated) :=
    fun s e t _ hs hst => by
      have hopen : s.closed = none := by
        cases hclosed : s.closed with
        | none => rfl
        | some x => cases e <;> simp [HttpState.step, hclosed] at hst
      obtain ⟨t', ht', hinv', -, hssi', heof, -, -⟩ := step_spec tcp hs.inv hdata hopen e
      obtain rfl : t' = t := Option.some.inj (ht'.symm.trans hst)
      exact ⟨hinv', hssi'.trans hs.ssi, heof⟩
  exact run_invariant hstep (fun _ _ => trivial) (reached_init hv) hrun

/-- The state of a page with tags. -/
lemma run_boundary (hdata : data.length < 65536)
    (hrun : run (HttpState.step tcp data) (httpInitFile data w false true true) cs = some h) :
    ∃ ssi, Boundary data (h.sending ssi) := by
  obtain ⟨hinv, hssi, -⟩ := run_spec hdata (Or.inl rfl) hrun
  rw [HttpState.Inv] at hinv
  cases hcase : h.ssi with
  | none =>
      rw [hcase] at hssi
      cases hssi
  | some ssi =>
      rw [hcase] at hinv
      exact ⟨ssi, hinv⟩

/-! ### An example -/

/-- A connection that accepts what fits into its send buffer of `w` bytes. -/
def roomTcp : Tcp UInt16 where
  sndbuf := id
  sndqueuelen := fun _ => 0
  mss := fun _ => 536
  write := fun w l => if l.length ≤ w.toNat then (.ok, w - UInt16.ofNat l.length) else (.mem, w)
  mtime := fun _ => 4711
  flags := fun _ => { alpha := true, bravo := false, charlie := false }

lemma room_ready : Ready roomTcp 100 :=
  ⟨by decide, by decide, fun _ _ hl => congrArg Prod.fst (if_pos hl)⟩

lemma plain_nil : Plain [] := ⟨List.isChain_nil, nofun⟩

lemma plain_singleton {b : UInt8} (hb : b ≠ 60) : Plain [b] :=
  ⟨List.isChain_singleton _, fun _ hc => (Option.some.inj hc) ▸ hb⟩

/-- `a<!--# alpha --><!--#systick-->`. -/
def tagPieces : List Piece :=
  [⟨bytes "a", [32], bytes "alpha", [32]⟩, ⟨[], [], bytes "systick", []⟩]

def tagPage : List UInt8 := render tagPieces (bytes "b")

lemma valid_tagPieces : ∀ q ∈ tagPieces, q.Valid := by
  have halpha : (⟨bytes "a", [32], bytes "alpha", [32]⟩ : Piece).Valid :=
    ⟨plain_singleton (by decide), by decide +kernel, by decide +kernel,
      by decide +kernel, by decide +kernel, by decide +kernel⟩
  have hsystick : (⟨[], [], bytes "systick", []⟩ : Piece).Valid :=
    ⟨plain_nil, nofun, nofun, by decide +kernel, by decide +kernel, by decide +kernel⟩
  exact List.forall_mem_cons.mpr ⟨halpha, List.forall_mem_cons.mpr ⟨hsystick, nofun⟩⟩

/-- The page, with little room for it, before its end and at its end. -/
lemma run_tagPage :
    (∃ h, run (HttpState.step roomTcp tagPage) (httpInitFile tagPage 0 false true true)
      [.sent 1, .poll 0] = some h ∧ h.closed = none) ∧
    ∃ h, run (HttpState.step roomTcp tagPage) (httpInitFile tagPage 0 false true true)
      [.sent 1, .poll 0, .sent 3, .sent 100] = some h ∧ h.closed = some .eof := by
  constructor
  · obtain ⟨h, hrun, hopen⟩ := (Option.any_eq_true _ _).mp (by decide +kernel :
      (run (HttpState.step roomTcp tagPage) (httpInitFile tagPage 0 false true true)
        [.sent 1, .poll 0]).any (fun h => decide (h.closed = none)) = true)
    exact ⟨h, hrun, of_decide_eq_true hopen⟩
  · obtain ⟨h, hrun, heof⟩ := (Option.any_eq_true _ _).mp (by decide +kernel :
      (run (HttpState.step roomTcp tagPage) (httpInitFile tagPage 0 false true true)
        [.sent 1, .poll 0, .sent 3, .sent 100]).any
          (fun h => decide (h.closed = some .eof)) = true)
    exact ⟨h, hrun, of_decide_eq_true heof⟩

/-! ### What the client receives -/

/-- **The loop ends**: whatever happens to the connection, and whichever writes are refused, a
callback on an open connection returns. -/
theorem callback_returns (hdata : data.length < 65536)
    (hv : is09 = false ∨ (tagCheck && allocated) = false)
    (hrun : run (HttpState.step tcp data) (httpInitFile data w is09 tagCheck allocated) cs =
      some h)
    (hopen : h.closed = none) (c : Callback σ) : (h.step tcp data c).isSome = true := by
  obtain ⟨hinv, -, -⟩ := run_spec hdata hv hrun
  obtain ⟨h', hstep, -⟩ := step_spec tcp hinv hdata hopen c
  rw [hstep]
  rfl

theorem callback_returns_tagPage :
    ∃ h, run (HttpState.step roomTcp tagPage) (httpInitFile tagPage 0 false true true)
      [.sent 1, .poll 0] = some h ∧ (h.step roomTcp tagPage (.sent 3)).isSome = true := by
  obtain ⟨⟨h, hrun, hopen⟩, -⟩ := run_tagPage
  exact ⟨h, hrun, callback_returns (by decide) (Or.inl rfl) hrun hopen _⟩

/-- **Nothing is sent twice or out of order**: at any time the client has received the beginning
of the page with its inserts, whatever the inserts of the tags to come are; the handler has been
asked for the tags of the page, in order, once each. -/
theorem sent_extends_run (hdata : data.length < 65536)
    (hrun : run (HttpState.step tcp data) (httpInitFile data w false true true) cs = some h)
    (more : List (List UInt8)) :
    h.sent <+: expand (h.tags.map Prod.snd ++ more) data ∧
      h.tags.map Prod.fst <+: tagNames data ∧
        ∀ t ∈ h.tags, ∃ now f, t.2 = getTagInsert now f t.1 := by
  obtain ⟨ssi, hb⟩ := run_boundary hdata hrun
  refine ⟨hb.sent_extends more, ?_, ?_⟩
  · have hnames : ((h.sending ssi).page data).names = h.tags.map Prod.fst := by
      rcases hb with ⟨hs, -⟩ | hs
      · exact hs.names
      · exact hs.names
    rw [← hnames]
    exact (done_prefix_expand _).2
  · rcases hb with ⟨hs, -⟩ | hs
    · exact hs.inserts
    · exact hs.inserts

theorem sent_extends_run_tagPage :
    ∃ h, run (HttpState.step roomTcp tagPage) (httpInitFile tagPage 0 false true true)
      [.sent 1, .poll 0] = some h ∧
        h.sent <+: expand (h.tags.map Prod.snd ++ [bytes "4711"]) tagPage := by
  obtain ⟨⟨h, hrun, -⟩, -⟩ := run_tagPage
  exact ⟨h, hrun, (sent_extends_run (by decide) hrun _).1⟩

/-- **The end of the file**: a page that does not end with a tag has been sent completely; of one
that does, the last insert is missing. -/
theorem sent_of_eof (hdata : data.length < 65536)
    (hrun : run (HttpState.step tcp data) (httpInitFile data w false true true) cs = some h)
    (heof : h.closed = some .eof) :
    h.tags.map Prod.fst = tagNames data ∧
      (¬ EndsWithTag data → h.sent = expand (h.tags.map Prod.snd) data) ∧
        (EndsWithTag data → ∃ insert, (h.tags.map Prod.snd).getLast? = some insert ∧
          h.sent ++ insert = expand (h.tags.map Prod.snd) data) := by
  obtain ⟨-, -, hleft⟩ := run_spec hdata (Or.inl rfl) hrun
  obtain ⟨ssi, hb⟩ := run_boundary hdata hrun
  obtain ⟨hnames, htext, htag⟩ := hb.sent_of_left (hleft heof)
  exact ⟨hnames, htext, fun hends => (htag hends).1⟩

theorem sent_of_eof_tagPage :
    ∃ h, run (HttpState.step roomTcp tagPage) (httpInitFile tagPage 0 false true true)
      [.sent 1, .poll 0, .sent 3, .sent 100] = some h ∧
        h.tags.map Prod.fst = tagNames tagPage := by
  obtain ⟨-, h, hrun, heof⟩ := run_tagPage
  exact ⟨h, hrun, (sent_of_eof (by decide) hrun heof).1⟩

/-! ### Pages of texts and tags -/

section Pieces

variable {qs : List Piece} {q : Piece} {last d l : List UInt8}

lemma render_eq_append : render qs last = render qs [] ++ last := by
  induction qs with
  | nil => rfl
  | cons q qs ih => rw [render, render, ih, List.append_assoc, List.append_assoc]

lemma render_concat : render (qs ++ [q]) last = render qs [] ++ (q.text ++ (q.tag ++ last)) := by
  induction qs with
  | nil => rfl
  | cons p qs ih => rw [List.cons_append, render, render, ih, List.append_assoc, List.append_assoc]

lemma readPage_render (inserts : List (List UInt8)) (hqs : ∀ q ∈ qs, q.Valid) :
    (readPage inserts (render qs [])).scan = .text ∧
      (readPage inserts (render qs [])).held = [] := by
  rw [readPage, foldl_render hqs plain_nil Page.empty rfl rfl]
  exact ⟨rfl, rfl⟩

/-- Text completes no tag. -/
lemma not_endsWithTag_plain (hqs : ∀ q ∈ qs, q.Valid) (hl : Plain l) (hne : l ≠ []) :
    ¬ EndsWithTag (render qs [] ++ l) := by
  obtain ⟨t, c, hl'⟩ := (List.eq_nil_or_concat l).resolve_left hne
  obtain rfl : l = t ++ [c] := hl'.trans (List.concat_eq_append)
  obtain ⟨hscan, hheld⟩ := readPage_render [] hqs
  rw [← List.append_assoc, endsWithTag_concat [], Option.isSome_iff_exists]
  rintro ⟨n, hn⟩
  have hwhole := (foldl_plain [] hl).1 _ hscan hheld
  rw [List.foldl_append, List.foldl_cons, List.foldl_nil] at hwhole
  have hmid : readPage [] (render qs [] ++ t) =
      t.foldl (Page.push []) (readPage [] (render qs [])) := List.foldl_append
  rw [← hmid] at hwhole
  have hnames := congrArg (fun p => p.names.length) hwhole
  have hle := (foldl_extends [] (readPage [] (render qs [])) t).2.length_le
  rw [← hmid] at hle
  have hpush := push_of_tag [] (Prod.ext rfl hn :
    (readPage [] (render qs [] ++ t)).scan.read c = (_, some n))
  rw [hpush] at hnames
  simp only [List.length_append, List.length_singleton] at hnames
  omega

/-- **A page of texts and tags**, with some text at its end: when the connection ends with the
file, the client has received the texts, with the inserts in the place of the tags. -/
theorem fill_of_eof (hqs : ∀ q ∈ qs, q.Valid) (hlast : Plain last) (hne : last ≠ [])
    (hdata : (render qs last).length < 65536)
    (hrun : run (HttpState.step tcp (render qs last))
      (httpInitFile (render qs last) w false true true) cs = some h)
    (heof : h.closed = some .eof) :
    h.tags.map Prod.fst = qs.map Piece.name ∧ h.sent = fill (h.tags.map Prod.snd) qs last := by
  obtain ⟨-, -, hleft⟩ := run_spec hdata (Or.inl rfl) hrun
  obtain ⟨ssi, hb⟩ := run_boundary hdata hrun
  obtain ⟨hnames, htext, -⟩ := hb.sent_of_left (hleft heof)
  have hends : ¬ EndsWithTag (render qs last) := by
    rw [render_eq_append]
    exact not_endsWithTag_plain hqs hlast hne
  obtain ⟨hexpand, htags⟩ := expand_pieces (h.tags.map Prod.snd) hqs hlast
  exact ⟨hnames.trans htags, (htext hends).trans hexpand⟩

theorem fill_of_eof_tagPage :
    ∃ h, run (HttpState.step roomTcp tagPage) (httpInitFile tagPage 0 false true true)
      [.sent 1, .poll 0, .sent 3, .sent 100] = some h ∧
        h.sent = fill (h.tags.map Prod.snd) tagPieces (bytes "b") := by
  obtain ⟨-, h, hrun, heof⟩ := run_tagPage
  exact ⟨h, hrun, (fill_of_eof valid_tagPieces (plain_singleton (by decide)) (by decide)
    (by decide) hrun heof).2⟩

/-- The tag at the end of a page. -/
lemma readPage_last (hqs : ∀ q ∈ qs, q.Valid) (hq : q.Valid) :
    EndsWithTag (render (qs ++ [q]) []) ∧
      (readPage [] ((render (qs ++ [q]) []).take ((render (qs ++ [q]) []).length - 1))).held =
        q.start ∧
      (render (qs ++ [q]) []).length = (render qs [] ++ q.text).length + q.start.length + 1 := by
  have hpage : render (qs ++ [q]) [] = (render qs [] ++ q.text) ++ q.start ++ [62] := by
    rw [render_concat, tag_eq, List.append_nil]
    simp only [List.append_assoc]
  have hlength : (render (qs ++ [q]) []).length =
      (render qs [] ++ q.text).length + q.start.length + 1 := by
    rw [hpage, List.length_append, List.length_append, List.length_singleton]
  obtain ⟨hscan, hheld⟩ := readPage_render [] hqs
  have hfront : readPage [] (render qs [] ++ q.text) =
      q.text.foldl (Page.push []) (readPage [] (render qs [])) := List.foldl_append
  rw [(foldl_plain [] hq.plain).1 _ hscan hheld] at hfront
  have hstart : readPage [] ((render qs [] ++ q.text) ++ q.start) =
      q.start.foldl (Page.push []) (readPage [] (render qs [] ++ q.text)) := List.foldl_append
  rw [hfront, foldl_of_hold (hold_tag hq) rfl start_ne_nil] at hstart
  refine ⟨?_, ?_, hlength⟩
  · rw [hpage, endsWithTag_concat [], hstart, read_last hq]
    rfl
  · rw [hlength, Nat.add_sub_cancel, ← List.length_append, hpage, List.take_left, hstart]
    exact List.nil_append _

/-- **A page that ends with a text and a tag** is never finished: the end of the file does not
close the connection, however long it is served. -/
theorem not_eof_of_tag (hqs : ∀ q ∈ qs, q.Valid) (hq : q.Valid) (htext : q.text ≠ [])
    (hdata : (render (qs ++ [q]) []).length < 65536)
    (hrun : run (HttpState.step tcp (render (qs ++ [q]) []))
      (httpInitFile (render (qs ++ [q]) []) w false true true) cs = some h) :
    h.closed ≠ some .eof := by
  intro heof
  obtain ⟨-, -, hleft⟩ := run_spec hdata (Or.inl rfl) hrun
  obtain ⟨ssi, hb⟩ := run_boundary hdata hrun
  obtain ⟨-, -, htag⟩ := hb.sent_of_left (hleft heof)
  obtain ⟨hends, htake, hlength⟩ := readPage_last hqs hq
  obtain ⟨-, d, hd, hstart⟩ := htag hends
  have hfront : d = (render qs [] ++ q.text).length := by
    rw [htake] at hd
    omega
  have hd0 : d ≠ 0 := by
    rw [hfront, List.length_append]
    have htext' := List.length_pos_of_ne_nil htext
    omega
  rw [hfront, render_concat, ← List.append_assoc, List.take_left] at hstart
  exact not_endsWithTag_plain hqs hq.plain htext (hstart.resolve_left (hfront ▸ hd0))

theorem not_eof_of_tag_alpha :
    ∃ h, run (HttpState.step roomTcp (render [⟨bytes "a", [32], bytes "alpha", [32]⟩] []))
      (httpInitFile (render [⟨bytes "a", [32], bytes "alpha", [32]⟩] []) 0 false true true)
        [.sent 100, .poll 100, .sent 100] = some h ∧ h.closed ≠ some .eof := by
  obtain ⟨h, hrun, -⟩ := (Option.any_eq_true _ _).mp (by decide +kernel :
    (run (HttpState.step roomTcp (render [⟨bytes "a", [32], bytes "alpha", [32]⟩] []))
      (httpInitFile (render [⟨bytes "a", [32], bytes "alpha", [32]⟩] []) 0 false true true)
        [.sent 100, .poll 100, .sent 100]).any (fun _ => true) = true)
  exact ⟨h, hrun, not_eof_of_tag (List.forall_mem_nil _) (valid_tagPieces _ (List.mem_cons_self ..))
    (by decide) (by decide) hrun⟩

end Pieces

/-! ### Progress -/

open Classical in
/-- How many of the states find the connection ready. -/
noncomputable def readyCount (tcp : Tcp σ) (ws : List σ) : ℕ :=
  ws.countP fun w => decide (Ready tcp w)

open Classical in
lemma readyCount_cons {ws : List σ} :
    readyCount tcp (w :: ws) = readyCount tcp ws + if Ready tcp w then 1 else 0 := by
  rw [readyCount, readyCount, List.countP_cons]
  simp only [decide_eq_true_eq]

/-- A connection that is ready often enough is closed with the end of the file. -/
lemma eof_of_ready {ws : List σ} (hdata : data.length < 65536) {tags : Bool}
    (hends : tags = true → ¬ EndsWithTag data) (hreached : h.Reached data start tags)
    (hopen : h.closed = none) (hcount : h.work < readyCount tcp ws) :
    ∃ vs h', vs <+: ws ∧ run (HttpState.step tcp data) h (vs.map Callback.sent) = some h' ∧
      h'.closed = some .eof := by
  induction ws generalizing h with
  | nil => simp [readyCount] at hcount
  | cons w ws ih =>
      obtain ⟨u, hu, hinv, hle, hssi, heof, hretries, hlt⟩ :=
        step_spec tcp hreached.inv hdata hopen (.sent w)
      cases hclosed : u.closed with
      | some x =>
          cases x with
          | eof =>
              refine ⟨[w], u, List.prefix_append [w] ws, ?_, hclosed⟩
              rw [List.map_singleton, run_cons, hu, Option.bind_some, run_nil]
          | retries => exact absurd hclosed (hretries w rfl)
      | none =>
          have hcount' : u.work < readyCount tcp ws := by
            rw [readyCount_cons] at hcount
            by_cases hready : Ready tcp w
            · have hless := hlt hclosed hready fun hs => hends (hreached.ssi ▸ hs)
              rw [if_pos hready] at hcount
              omega
            · rw [if_neg hready] at hcount
              omega
          obtain ⟨vs, h', hvs, hrun, heof'⟩ :=
            ih ⟨hinv, hssi.trans hreached.ssi, heof⟩ hclosed hcount'
          refine ⟨w :: vs, h', List.cons_prefix_cons.mpr ⟨rfl, hvs⟩, ?_, heof'⟩
          rw [List.map_cons, run_cons, hu]
          exact hrun

/-- **The page arrives**: while the client acknowledges what it gets, and the connection is ready
often enough, a page that does not end with a tag is sent completely. -/
theorem page_arrives {ws : List σ} (hdata : data.length < 65536) (hends : ¬ EndsWithTag data)
    (hcount : 41 * data.length < readyCount tcp ws) :
    ∃ vs h, vs <+: ws ∧
      run (HttpState.step tcp data) (httpInitFile data w false true true) (vs.map Callback.sent) =
        some h ∧
      h.closed = some .eof ∧ h.tags.map Prod.fst = tagNames data ∧
        h.sent = expand (h.tags.map Prod.snd) data := by
  obtain ⟨vs, h, hvs, hrun, heof⟩ := eof_of_ready hdata (fun _ => hends)
    (reached_init (w := w) (Or.inl rfl)) rfl ((work_init (Or.inl rfl)).trans_lt hcount)
  obtain ⟨-, -, hleft⟩ := run_spec hdata (Or.inl rfl) hrun
  obtain ⟨ssi, hb⟩ := run_boundary hdata hrun
  obtain ⟨hnames, htext, -⟩ := hb.sent_of_left (hleft heof)
  exact ⟨vs, h, hvs, hrun, heof, hnames, htext hends⟩

lemma readyCount_replicate (n : ℕ) : readyCount roomTcp (List.replicate n 100) = n := by
  induction n with
  | zero => rfl
  | succ n ih => rw [List.replicate_succ, readyCount_cons, ih, if_pos room_ready]

theorem page_arrives_tagPage :
    ∃ vs h, vs <+: List.replicate (41 * tagPage.length + 1) 100 ∧
      run (HttpState.step roomTcp tagPage) (httpInitFile tagPage 0 false true true)
        (vs.map Callback.sent) = some h ∧
      h.closed = some .eof ∧ h.tags.map Prod.fst = tagNames tagPage ∧
        h.sent = expand (h.tags.map Prod.snd) tagPage := by
  have hends : ¬ EndsWithTag tagPage := by
    rw [tagPage, render_eq_append]
    exact not_endsWithTag_plain valid_tagPieces (plain_singleton (by decide)) (by decide)
  exact page_arrives (by decide) hends (by rw [readyCount_replicate]; exact Nat.lt_succ_self _)

/-- **A page without tags**, or one for which there was no memory to look for them, is sent as it
is, for an HTTP/0.9 request without its header: always from its beginning, and completely when the
file ends; and it arrives. -/
theorem plain_page (hdata : data.length < 65536) (htags : (tagCheck && allocated) = false) :
    (∀ cs h,
      run (HttpState.step tcp data) (httpInitFile data w is09 tagCheck allocated) cs = some h →
        h.sent <+: data.drop (headerSkipped data is09) ∧
          (h.closed = some .eof → h.sent = data.drop (headerSkipped data is09))) ∧
    ∀ ws, 41 * data.length < readyCount tcp ws → ∃ vs h, vs <+: ws ∧
      run (HttpState.step tcp data) (httpInitFile data w is09 tagCheck allocated)
        (vs.map Callback.sent) = some h ∧ h.closed = some .eof := by
  constructor
  · intro cs h hrun
    obtain ⟨hinv, hssi, hleft⟩ := run_spec hdata (Or.inr htags) hrun
    rw [HttpState.Inv] at hinv
    cases hcase : h.ssi with
    | some ssi =>
        rw [hcase, htags] at hssi
        cases hssi
    | none =>
        rw [hcase] at hinv
        obtain ⟨hstart, hfile, hsent, -⟩ := hinv
        rw [hsent, slice]
        refine ⟨List.take_prefix _ _, fun heof => List.take_of_length_le ?_⟩
        have h0 := hleft heof
        rw [List.length_drop]
        omega
  · intro ws hcount
    have hends : (tagCheck && allocated) = true → ¬ EndsWithTag data := fun h => by
      rw [htags] at h
      cases h
    exact eof_of_ready hdata hends (reached_init (Or.inr htags)) rfl
      ((work_init (Or.inr htags)).trans_lt hcount)

/-- A file with its header. -/
def headerPage : List UInt8 := bytes "OK" ++ crlfCrlf ++ bytes "text"

/-- It is sent without the header. -/
theorem plain_page_headerPage :
    ∃ vs h, vs <+: List.replicate (41 * headerPage.length + 1) 100 ∧
      run (HttpState.step roomTcp headerPage) (httpInitFile headerPage 0 true false false)
        (vs.map Callback.sent) = some h ∧ h.closed = some .eof ∧ h.sent = bytes "text" := by
  obtain ⟨vs, h, hvs, hrun, heof⟩ := (@plain_page _ roomTcp headerPage 0 true false false
    (by decide) rfl).2 _ (by rw [readyCount_replicate]; exact Nat.lt_succ_self _)
  refine ⟨vs, h, hvs, hrun, heof, ?_⟩
  rw [((plain_page (by decide) rfl).1 _ h hrun).2 heof]
  decide +kernel

end Stm32Ecm.Http
