import BlobStore.Proofs.Store.Acceptance
import BlobStore.Proofs.Store.Deleting
import BlobStore.Proofs.Store.Delivered

/-!
# Keys that share an object

With the identity layout a key is its own pathname and its own filename, so that the object lies at
the solid parts of the key, one after the other and then once more.  A list that is twice in a row
is known from the whole (`append_self_inj`), so two keys have one object if and only if they have
the same solid parts (`Store.locate_file_eq_iff`), however many slashes and inner dots they are
written with.

In a store that was not there before the first write nothing can be found but the object that has
been written: all else below the root are the directories above it.  A key that names one of these
is not stored (`Store.Sole.has_iff`).  A deletion removes the first directory, which two keys share
if they begin with the same solid part (`Store.Sole.has_after_delete_iff`).
-/

namespace BlobStore

/-! ## Parts of keys -/

/-- The parts of a key that count, of which none is empty and none a dot. -/
def keyParts (key : String) : List (List Char) :=
  (textParts key).filter fun part => part ≠ [] ∧ part ≠ ['.']

theorem append_self_inj {α : Type} {xs ys : List α} : xs ++ xs = ys ++ ys ↔ xs = ys := by
  refine ⟨fun h => ?_, fun h => by rw [h]⟩
  have hlength := congrArg List.length h
  rw [List.length_append, List.length_append] at hlength
  exact (List.append_inj h (by omega)).1

namespace Placement

/-- The names of an identity placement are the solid parts of the key, twice. -/
theorem names_identity (key : String) :
    (Layout.identity key).names = (keyParts key ++ keyParts key).map Text.encode := by
  rw [names_eq_solidParts, Placement.solidParts, List.filter_append]
  rfl

theorem names_identity_inj {key₁ key₂ : String} :
    (Layout.identity key₂).names = (Layout.identity key₁).names ↔
      keyParts key₁ = keyParts key₂ := by
  rw [names_identity, names_identity, Text.encode_injective.list_map.eq_iff, append_self_inj,
    eq_comm]

/-- A pathname with a piece has a first segment. -/
theorem firstSegment_ne_empty {p : Placement} (h : (Path.ofString p.pathname).names ≠ []) :
    p.firstSegment ≠ "" := by
  have hpieces : Text.pieces '/' p.pathname.toList ≠ [] := by
    intro hnil
    rw [Path.names, pieces_ofString, hnil] at h
    exact h rfl
  obtain ⟨cs, css, hcons⟩ := List.exists_cons_of_ne_nil hpieces
  have hne : cs ≠ [] := Text.ne_nil_of_mem_pieces (hcons ▸ List.mem_cons_self)
  have hsegments : p.segments = (cs :: css).map String.ofList := congrArg _ hcons
  rw [firstSegment, hsegments]
  simpa using hne

end Placement

/-! ## Trees with one more file -/

namespace Disk

variable {d d' : Disk} {p : Path} {b : ByteArray}

/-- A tree with a file more in one of its directories is a tree. -/
theorem Tree.of_stores (hd : d.Tree p) (hp : Followable p)
    (hdir : d.view (d.locate p).dropLast = some .dir) (hstores : d.Stores d' (d.locate p) b)
    (hd' : d'.Unshared) (hbase : d'.base = d.base) : d'.Tree p where
  toUnshared := hd'
  closed := closed_update hd.closed hdir (fun h => absurd h hstores.free) hstores.view
  start_dir := by
    have hne : d.start p ≠ d.locate p := by
      intro heq
      have hle : d.start p <+: (d.locate p).dropLast := by
        rw [hp.dropLast_locate]
        exact List.prefix_append ..
      rw [heq] at hle
      exact hp.locate_not_isPrefix d hle
    rw [start, hbase, ← start, hstores.view_other hne, hd.start_dir]

end Disk

namespace Store

variable {s : Store} {d : Disk}

/-- A tree with more directories is a tree. -/
theorem Made.tree {d₁ : Disk} {l : Location} {p : Path} (h : Made d d₁ l) (hd : d.Tree p)
    (hd₁ : d₁.Unshared) : d₁.Tree p where
  toUnshared := hd₁
  closed := hd.closed.made h.view
  start_dir := by
    rw [Disk.start, h.base, ← Disk.start, h.view, hd.start_dir, ite_self]

/-- Where the directories are there, both ways of writing store a file if they succeed. -/
theorem stores_of_writing (hd : d.Unshared) {dir file : Path} (hfile : file.Plain)
    (hdir : dir.Plain) (atomic : Bool) {deliveries : List Delivery} {failure : Option IoError}
    {n : Nat}
    (hok : ((if atomic = true then writeAtomic dir file (.reader deliveries failure)
      else writePlain file (.reader deliveries failure)).run d).1 = .ok n) :
    n = (Source.collected deliveries).size ∧
      d.Stores ((if atomic = true then writeAtomic dir file (.reader deliveries failure)
        else writePlain file (.reader deliveries failure)).run d).2 (d.locate file)
        (Source.collected deliveries) := by
  cases atomic with
  | true =>
    rcases run_writeAtomic (.reader deliveries failure) hd hfile hdir with
      ⟨e, herror, -⟩ | ⟨hwritten, -, -, hstores⟩
    · exact absurd (herror.symm.trans hok) (by simp)
    · exact ⟨(Except.ok.inj (hwritten.symm.trans hok)).symm, hstores⟩
  | false =>
    rcases run_writePlain (.reader deliveries failure) hd hfile with
      ⟨e, herror, -⟩ | ⟨h, d₂, -, -, hanswer, hstores⟩
    · exact absurd ((congrArg Prod.fst herror).symm.trans hok) (by simp)
    · obtain ⟨-, hn⟩ := Source.answer_eq_ok.mp (hanswer.symm.trans hok)
      exact ⟨hn, hstores⟩

/-- A write that succeeds has made the directories of its object and put the file there. -/
theorem stores_of_write {key : String} {site : Site} (hsite : s.site key = .ok site)
    (hreach : site.Reachable) (hd : d.Tree site.file) {deliveries : List Delivery}
    {failure : Option IoError} {n : Nat}
    (hwritten : ((s.write key (.reader deliveries failure)).run d).1 = .ok n) :
    n = (Source.collected deliveries).size ∧ ∃ d₁, Made d d₁ (d.locate site.dir) ∧
      d₁.Tree site.file ∧ d₁.Stores ((s.write key (.reader deliveries failure)).run d).2
        (d₁.locate site.file) (Source.collected deliveries) := by
  have hway : ¬ d.Blocked (d.locate site.dir) := by
    intro hblocked
    rw [write_of_blocked hsite hd hreach hblocked] at hwritten
    cases hwritten
  obtain ⟨d₁, hmade, hd₁, hrun⟩ :=
    run_write_of_way hsite hd hreach hway (.reader deliveries failure)
  rw [hrun] at hwritten ⊢
  dsimp only at hwritten ⊢
  cases hanswer : ((if s.atomicWrites = true then
      writeAtomic site.dir site.file (.reader deliveries failure)
      else writePlain site.file (.reader deliveries failure)).run d₁).1 with
  | error e =>
    rw [hanswer] at hwritten
    cases hwritten
  | ok m =>
    rw [hanswer] at hwritten
    obtain rfl : m = n := Except.ok.inj hwritten
    obtain ⟨hn, hstores⟩ :=
      stores_of_writing hd₁ hreach.file.plain hreach.plain_dir s.atomicWrites hanswer
    exact ⟨hn, d₁, hmade, hmade.tree hd hd₁, hstores⟩

/-! ## The only object of a store -/

/-- A disk on which one object is all that lies below the root, but for the directories above the
object. -/
structure Sole (s : Store) (site : Site) (b : ByteArray) (d : Disk) : Prop where
  tree : d.Tree s.root
  above : ∀ m, m <+: d.locate s.root → d.view m = some .dir
  below : ∀ m, d.locate s.root <+: m → d.view m =
    if m = d.locate site.file then some (.file b)
    else if m <+: d.locate site.dir then some .dir else none

/-- A write into a store that is not there leaves its object and nothing else. -/
theorem sole_of_write (hroot : s.root.Plain) (hd : d.Tree s.root)
    (habsent : d.view (d.locate s.root) = none) {key : String} {site : Site}
    (hsite : s.site key = .ok site) (hreach : site.Reachable) {deliveries : List Delivery}
    {failure : Option IoError} {n : Nat}
    (hwritten : ((s.write key (.reader deliveries failure)).run d).1 = .ok n) :
    n = (Source.collected deliveries).size ∧ s.Sole site (Source.collected deliveries)
      ((s.write key (.reader deliveries failure)).run d).2 := by
  have hbelow := below_of_site hroot hsite
  have htree : d.Tree site.file := hd.of_isAbsolute hbelow.isAbsolute_file
  obtain ⟨hn, d₁, hmade, htree₁, hstores⟩ := stores_of_write hsite hreach htree hwritten
  have hd' := (s.write key (.reader deliveries failure)).run_unshared hd.toUnshared
  have hbase := (s.write key (.reader deliveries failure)).run_base d
  generalize ((s.write key (.reader deliveries failure)).run d).2 = d' at *
  have hdir : d₁.view (d₁.locate site.file).dropLast = some .dir := by
    rw [← hreach.locate_dir, hmade.view, Disk.locate_of_base hmade.base,
      if_pos (List.prefix_refl _)]
  have hway : d.locate s.root <+: d.locate site.dir := by
    rw [hbelow.locate_dir]
    exact List.prefix_append ..
  have htree' : d'.Tree site.file :=
    htree₁.of_stores hreach.file hdir hstores hd' (hbase.trans hmade.base.symm)
  refine ⟨hn, htree'.of_isAbsolute hbelow.isAbsolute_file.symm, fun m hm => ?_, fun m hm => ?_⟩
  · rw [Disk.locate_of_base hbase] at hm
    have hdirs : d₁.view m = some .dir := by
      rw [hmade.view, if_pos (hm.trans hway)]
    rw [hstores.view_other fun heq => hstores.free (heq ▸ hdirs), hdirs]
  · rw [Disk.locate_of_base hbase] at hm ⊢
    rw [hstores.view, hmade.view, Disk.locate_of_base hmade.base, Disk.locate_of_base hbase,
      hd.closed.none_of_none hm habsent]

namespace Sole

variable {site site₂ : Site} {b : ByteArray} {key key₂ : String}
  (h : s.Sole site b d) (hroot : s.root.Plain) (hsite₂ : s.site key₂ = .ok site₂)

include h hroot hsite₂

/-- A path of the store leads to a file only if this is the object. -/
theorem file?_eq_some (hreach₂ : site₂.Reachable) {c : ByteArray} :
    d.file? site₂.file = some c ↔ d.locate site₂.file = d.locate site.file ∧ b = c := by
  have hbelow₂ := below_of_site hroot hsite₂
  have htree : d.Tree site₂.file := h.tree.of_isAbsolute hbelow₂.isAbsolute_file
  have hle : d.locate s.root <+: d.locate site₂.file := by
    rw [hbelow₂.locate_file]
    exact List.prefix_append ..
  rw [Disk.file?_eq_some_iff hreach₂.file htree hreach₂.slash, h.below _ hle]
  split_ifs with heq <;> simp [heq]

/-- What is found under another key is the object or nothing. -/
theorem has_iff (hreach₂ : site₂.Reachable) : s.reply (.has key₂) d = .present true ↔
    d.locate site₂.file = d.locate site.file := by
  have htree := h.tree.of_isAbsolute (below_of_site hroot hsite₂).isAbsolute_file
  rw [reply_has_of_reachable hsite₂ hreach₂ htree, Reply.present.injEq, Option.isSome_iff_exists]
  simp only [h.file?_eq_some hroot hsite₂ hreach₂, exists_and_left, exists_eq', and_true]

theorem read_eq (hreach₂ : site₂.Reachable) (heq : d.locate site₂.file = d.locate site.file) :
    s.reply (.read key₂) d = .contents b.size b := by
  have htree := h.tree.of_isAbsolute (below_of_site hroot hsite₂).isAbsolute_file
  rw [reply_read_of_reachable hsite₂ hreach₂ htree,
    (h.file?_eq_some hroot hsite₂ hreach₂).mpr ⟨heq, rfl⟩]

omit hsite₂ in
/-- No file is in the way of a first directory, since the object lies deeper. -/
theorem not_blocked (hdeep : 2 ≤ site.placement.names.length) (hsite : s.site key = .ok site) :
    ¬ d.Blocked (d.locate s.root ++ site₂.placement.names.take 1) := by
  rintro hblocked
  obtain ⟨m, hm, c, hc⟩ := Disk.blocked_iff.mp hblocked
  rcases List.prefix_or_prefix_of_prefix hm (List.prefix_append ..) with habove | hbelow
  · rw [h.above m habove] at hc
    cases hc
  · rw [h.below m hbelow] at hc
    split_ifs at hc with heq
    · have hlength := hm.length_le
      rw [heq, (below_of_site hroot hsite).locate_file, List.length_append, List.length_append,
        List.length_take] at hlength
      omega
    · cases hc

/-- A deletion removes the first directory of its key, and so the object if this lies there. -/
theorem has_after_delete (hdeep : 2 ≤ site.placement.names.length) (hsite : s.site key = .ok site)
    (hreach : site.Reachable) (haccepted₂ : site₂.file.Accepted)
    (hfirst₂ : site₂.placement.firstSegment ≠ "") :
    s.reply (.delete key₂) d = .deleted ∧
      (s.reply (.has key) (s.next (.delete key₂) d) = .present false ↔
        site₂.placement.names.take 1 <+: site.placement.names) := by
  obtain ⟨hfollow, habs, hx⟩ := removes_first hroot hsite₂ haccepted₂ hfirst₂
  obtain ⟨-, htop⟩ := (below_of_site hroot hsite₂).first hfirst₂
  have hbelow := below_of_site hroot hsite
  have htree := h.tree.of_isAbsolute habs
  obtain ⟨hok, hview⟩ := hx.removed d htree (by
    rw [htop]
    exact h.not_blocked hroot hdeep hsite)
  refine ⟨by rw [reply_delete, hok], ?_⟩
  have hd' := (s.delete key₂).run_unshared h.tree.toUnshared
  have hbase := (s.delete key₂).run_base d
  rw [next_delete]
  generalize ((s.delete key₂).run d).2 = d' at *
  have htree' : d'.Tree site.file := (tree_of_removing hfollow htree hd' hbase hview).of_isAbsolute
    (hbelow.isAbsolute_file.trans habs.symm)
  have hself : d.view (d.locate site.file) = some (.file b) := by
    rw [h.below _ (by rw [hbelow.locate_file]; exact List.prefix_append ..), if_pos rfl]
  have hinside : d.locate (s.root.join (Path.ofString site₂.placement.firstSegment)) <+:
      d.locate site.file ↔ site₂.placement.names.take 1 <+: site.placement.names := by
    rw [htop, hbelow.locate_file, List.prefix_append_right_inj]
  by_cases hle : site₂.placement.names.take 1 <+: site.placement.names
  · refine iff_of_true (reply_has_of_view_eq_none hsite hreach htree' ?_) hle
    rw [Disk.locate_of_base hbase, hview, if_pos (hinside.mpr hle)]
  · have hfile : d'.file? site.file = some b := by
      rw [Disk.file?_eq_some_iff hreach.file htree' hreach.slash, Disk.locate_of_base hbase, hview,
        if_neg (hinside.not.mpr hle), hself]
    rw [reply_has_of_reachable hsite hreach htree', hfile]
    simpa using hle

end Sole

/-! ## Keys as they are -/

section identity

variable (hidentity : s.layout = Layout.identity) {key key₂ : String} {site site₂ : Site}
  (hsite : s.site key = .ok site)

include hidentity hsite

theorem names_site_identity : site.placement.names =
    (keyParts key ++ keyParts key).map Text.encode := by
  rw [(site_eq_ok hsite).1, hidentity, Placement.names_identity]

theorem keyParts_ne_nil : keyParts key ≠ [] := by
  intro hnil
  have hnames := names_site_identity hidentity hsite
  rw [hnil] at hnames
  exact (site_eq_ok hsite).2.1.names_filename_ne_nil (List.append_eq_nil_iff.mp hnames).2

/-- The object lies in a directory, which has the name of the first part of the key. -/
theorem two_le_length_names : 2 ≤ site.placement.names.length := by
  have hpos := List.length_pos_iff.mpr (keyParts_ne_nil hidentity hsite)
  rw [names_site_identity hidentity hsite, List.length_map, List.length_append]
  omega

theorem firstSegment_site_ne_empty : site.placement.firstSegment ≠ "" := by
  obtain ⟨hplacement, haccepted, -⟩ := site_eq_ok hsite
  refine Placement.firstSegment_ne_empty ?_
  have hsame : site.placement.pathname = site.placement.filename := by
    rw [hplacement, hidentity]
    rfl
  rw [hsame]
  exact haccepted.names_filename_ne_nil

variable (hsite₂ : s.site key₂ = .ok site₂)

include hsite₂

/-- Two keys have one location if and only if they have the same parts. -/
theorem locate_file_eq_iff (hroot : s.root.Plain) (d : Disk) :
    d.locate site₂.file = d.locate site.file ↔ keyParts key = keyParts key₂ := by
  rw [(below_of_site hroot hsite).locate_file, (below_of_site hroot hsite₂).locate_file,
    List.append_cancel_left_eq, (site_eq_ok hsite).1, (site_eq_ok hsite₂).1, hidentity,
    Placement.names_identity_inj]

/-- Two keys have one first directory if and only if they begin with the same part. -/
theorem take_names_isPrefix_iff : site₂.placement.names.take 1 <+: site.placement.names ↔
    (keyParts key).head? = (keyParts key₂).head? := by
  obtain ⟨part, parts, hparts⟩ := List.exists_cons_of_ne_nil (keyParts_ne_nil hidentity hsite)
  obtain ⟨part₂, parts₂, hparts₂⟩ := List.exists_cons_of_ne_nil (keyParts_ne_nil hidentity hsite₂)
  rw [names_site_identity hidentity hsite, names_site_identity hidentity hsite₂, hparts, hparts₂]
  simp [List.cons_prefix_cons, Text.encode_injective.eq_iff, eq_comm]

end identity

/-- **Keys share an object if and only if they have the same parts.**  In a store with the identity
layout, whose root is not there yet, let an object have been written under a key.  Then it is found
under another key exactly if both keys have the same solid parts in the same order, and there it is
read with the bytes that have been delivered.  A deletion under the other key always succeeds, and
it removes the object exactly if both keys begin with the same part. -/
theorem shared_keys (hidentity : s.layout = Layout.identity) (hroot : s.root.Plain)
    (hd : d.Tree s.root) (habsent : d.view (d.locate s.root) = none) {key₁ key₂ : String}
    {file₁ file₂ : Path} (hlocation₁ : s.location key₁ = .ok file₁)
    (hlocation₂ : s.location key₂ = .ok file₂) (haccepted₁ : file₁.Accepted)
    (haccepted₂ : file₂.Accepted) (hdot₁ : lastPiece key₁ ≠ ['.']) (hdot₂ : lastPiece key₂ ≠ ['.'])
    {deliveries : List Delivery} {failure : Option IoError} {n : Nat}
    (hwritten : s.reply (.write key₁ (.reader deliveries failure)) d = .written n) :
    let d₁ := s.next (.write key₁ (.reader deliveries failure)) d
    let d₂ := s.next (.delete key₂) d₁
    (s.reply (.has key₂) d₁ = .present true ↔ keyParts key₁ = keyParts key₂) ∧
    (keyParts key₁ = keyParts key₂ →
      s.reply (.read key₂) d₁ = .contents n (Source.collected deliveries)) ∧
    s.reply (.delete key₂) d₁ = .deleted ∧
    (s.reply (.has key₁) d₂ = .present false ↔
      (keyParts key₁).head? = (keyParts key₂).head?) := by
  obtain ⟨site₁, hsite₁, rfl⟩ := location_eq_ok.mp hlocation₁
  obtain ⟨site₂, hsite₂, rfl⟩ := location_eq_ok.mp hlocation₂
  have hreach₁ := reachable_of_site hroot hsite₁ haccepted₁ (by rwa [hidentity])
  have hreach₂ := reachable_of_site hroot hsite₂ haccepted₂ (by rwa [hidentity])
  have hok : ((s.write key₁ (.reader deliveries failure)).run d).1 = .ok n := by
    rw [reply_write] at hwritten
    split at hwritten
    · next m hm => rw [hm, Reply.written.inj hwritten]
    · cases hwritten
  obtain ⟨hn, hsole⟩ := sole_of_write hroot hd habsent hsite₁ hreach₁ hok
  rw [next_write]
  intro d₁ d₂
  have hsame := locate_file_eq_iff hidentity hsite₁ hsite₂ hroot d₁
  obtain ⟨hdeleted, hgone⟩ := hsole.has_after_delete hroot hsite₂
    (two_le_length_names hidentity hsite₁) hsite₁ hreach₁ haccepted₂
    (firstSegment_site_ne_empty hidentity hsite₂)
  refine ⟨(hsole.has_iff hroot hsite₂ hreach₂).trans hsame, fun hparts => ?_, hdeleted,
    hgone.trans (take_names_isPrefix_iff hidentity hsite₁ hsite₂)⟩
  rw [hn]
  exact hsole.read_eq hroot hsite₂ hreach₂ (hsame.mpr hparts)

/-- The keys `a//b` and `a/./b` share an object.  The key `a` has none of its own, and a deletion
under it removes that of both. -/
theorem shared_keys_spelled :
    let s : Store := ⟨⟨[0x73]⟩, Layout.identity, true⟩
    let stored := s.next (.write "a//b" (.stream [.bytes ⟨#[7, 8]⟩] false)) Disk.empty
    s.reply (.read "a/./b") stored = .contents 2 ⟨#[7, 8]⟩ ∧
      s.reply (.has "a") stored ≠ .present true ∧
      s.reply (.has "a//b") (s.next (.delete "a") stored) = .present false := by
  intro s stored
  have hroot : s.root.Plain := ⟨by decide, by decide⟩
  have hd : Disk.empty.Tree s.root := Disk.wellFormed_empty.tree _
  have hlocation : s.location "a//b" = .ok (Path.ofString "s/a//b/a//b") := by unfold s; rfl
  have hspelled : s.location "a/./b" = .ok (Path.ofString "s/a/./b/a/./b") := by unfold s; rfl
  have hshort : s.location "a" = .ok (Path.ofString "s/a/a") := by unfold s; rfl
  have haccepted : (Path.ofString "s/a//b/a//b").Accepted := ⟨by decide, by decide, by decide⟩
  have hwritten : s.reply (.write "a//b" (.stream [.bytes ⟨#[7, 8]⟩] false)) Disk.empty =
      .written 2 := by unfold s; rfl
  have hsame := shared_keys rfl hroot hd rfl hlocation hspelled haccepted
    ⟨by decide, by decide, by decide⟩ (by decide) (by decide) hwritten
  have hother := shared_keys rfl hroot hd rfl hlocation hshort haccepted
    ⟨by decide, by decide, by decide⟩ (by decide) (by decide) hwritten
  exact ⟨hsame.2.1 (by decide), hother.1.not.mpr (by decide), hother.2.2.2.mpr (by decide)⟩

end Store

end BlobStore
