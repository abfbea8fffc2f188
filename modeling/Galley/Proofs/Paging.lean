import Galley.Proofs.Message.Catalog
import Mathlib.Algebra.Order.Floor.Div
import Mathlib.Order.Bounds.Basic
/-!
# Pages of apps

The apps that a user may see are handed out in pages of one size. A page begins as many pages behind the first
app as there are pages before it; where that is no count of 64 bits, no apps are left. Main statement: the pages
up to the last one hold the apps of the user's account in their order, and no fewer pages would do.
-/
namespace Galley

/-! ### Windows of a list -/

/-- Windows of one width that stand behind each other make up the front of a list. -/
theorem take_mul_eq_flatMap {α : Type} (as : List α) (width count : ℕ) :
    as.take (count * width) = (List.range count).flatMap fun i => (as.drop (i * width)).take width := by
  induction count with
  | zero => simp
  | succ count ih =>
    rw [Nat.succ_mul, List.take_add, ih, List.range_succ, List.flatMap_append, List.flatMap_singleton]

/-! ### Where a page begins -/

namespace Apps

/-- A place that is no count of 64 bits lies behind all apps, as the place does that is taken for it. -/
theorem drop_skipped {α : Type} {as : List α} (few : as.length ≤ Text.Numeral.maxI64) (page : Int)
    (size : ℕ) : as.drop (skipped page size) = as.drop ((max page 1 - 1).toNat * size) := by
  obtain ⟨before, pages⟩ := Int.eq_ofNat_of_zero_le (show 0 ≤ max page 1 - 1 by omega)
  have early : Text.Numeral.minI64 ≤ ((before * size : ℕ) : Int) :=
    Int.le_trans (by decide) (Int.natCast_nonneg _)
  have start : (before : Int) * size = (before * size : ℕ) := by rw [Nat.cast_mul]
  rw [skipped, pages, Int.toNat_natCast, start]
  by_cases late : ((before * size : ℕ) : Int) ≤ Text.Numeral.maxI64
  · have counted : ¬((before * size : ℕ) : Int) < 0 := Int.not_lt.mpr (Int.natCast_nonneg _)
    simp only [Text.Numeral.saturate_eq_self early late, if_neg counted, Int.toNat_natCast]
  · -- Both places lie behind the last element, so it does not matter that they are not the same.
    have most : Text.Numeral.saturate (before * size : ℕ) = Text.Numeral.maxI64 := by
      rw [Text.Numeral.saturate, Int.min_eq_left (Int.le_of_not_le late)]
      decide
    have behind : as.length ≤ before * size := by omega
    have behind' : as.length ≤ Text.Numeral.maxI64.toNat := by omega
    simp only [most]
    rw [List.drop_of_length_le behind]
    exact List.drop_of_length_le behind'

end Apps

/-! ### Numbers of pages -/

namespace Catalog

theorem totalPages_eq_ceilDiv {size : ℕ} (pos : 0 < size) (total : ℕ) :
    totalPages total size = (total ⌈/⌉ size : ℕ) := by
  rw [totalPages]
  split
  · next none =>
    obtain rfl : total = 0 := by omega
    rw [zero_ceilDiv, Nat.cast_zero]
  · next some =>
    have count : (total : Int) + size - 1 = (total + size - 1 : ℕ) := by omega
    rw [count, Int.tdiv_eq_ediv_of_nonneg (Int.natCast_nonneg _), Nat.ceilDiv_eq_add_pred_div, Int.natCast_ediv]

theorem isLeast_ceilDiv {size : ℕ} (pos : 0 < size) (total : ℕ) :
    IsLeast {n : ℕ | total ≤ n * size} (total ⌈/⌉ size) := by
  constructor
  · rw [Set.mem_ofPred_eq, Nat.mul_comm]
    exact le_smul_ceilDiv pos
  · intro n enough
    rw [Set.mem_ofPred_eq, Nat.mul_comm] at enough
    exact (ceilDiv_le_iff_le_mul pos).mpr enough

/-- How many apps are on a page when so many are asked for. -/
def AppsParams.size (limit : Int) : ℕ := if limit < 1 then 10 else limit.toNat

theorem AppsParams.limit_normalized (page limit : Int) :
    (AppsParams.normalized ⟨page, limit⟩).limit = size limit ∧ 0 < size limit := by
  unfold size normalized
  dsimp only
  split <;> omega

end Catalog

/-! ### Pages one behind the other -/

namespace AppServer

open Catalog

variable {d : Apps} {user : ApiUser} {limit : Int}

/-- What a client gets to know of an app. -/
def appInfo (a : App) : AppInfo := ⟨a.uuid, a.name, a.description⟩

/-- The apps of the user's account, as the user gets to know them. -/
def appInfos (user : ApiUser) (d : Apps) : List AppInfo :=
  (d.apps.filter (·.accountId = user.accountId)).map appInfo

theorem length_visible (d : Apps) (user : ApiUser) : (d.visible user).length = (appInfos user d).length := by
  rw [appInfos, List.length_map, Apps.visible]

/-- A page is a window of the apps that the user may see. -/
theorem apps_appsPage (few : (appInfos user d).length ≤ Text.Numeral.maxI64) (page limit : Int) :
    (appsPage ⟨page, limit⟩ user d).apps =
      ((appInfos user d).drop ((max page 1 - 1).toNat * AppsParams.size limit)).take
        (AppsParams.size limit) := by
  have size := (AppsParams.limit_normalized page limit).1
  have same : max (AppsParams.normalized ⟨page, limit⟩).page 1 = max page 1 := by
    simp [AppsParams.normalized]
  rw [← length_visible] at few
  simp only [appsPage, Apps.page, size, Int.toNat_natCast, Apps.drop_skipped few, same]
  rw [List.map_take, List.map_drop]
  rfl

theorem totalPages_appsPage (d : Apps) (user : ApiUser) (page limit : Int) :
    (appsPage ⟨page, limit⟩ user d).totalPages =
      ((appInfos user d).length ⌈/⌉ AppsParams.size limit : ℕ) := by
  obtain ⟨size, pos⟩ := AppsParams.limit_normalized page limit
  simp only [appsPage, Apps.page, size, length_visible]
  exact totalPages_eq_ceilDiv pos _

/-- Pages start at one. -/
theorem appsPage_of_lt {page : Int} (h : page < 1) (limit : Int) (user : ApiUser) (d : Apps) :
    appsPage ⟨page, limit⟩ user d = appsPage ⟨1, limit⟩ user d := by
  have first : AppsParams.normalized ⟨page, limit⟩ = AppsParams.normalized ⟨1, limit⟩ := by
    rw [AppsParams.normalized, AppsParams.normalized, Int.max_eq_right (Int.le_of_lt h)]
    rfl
  rw [appsPage, appsPage, first]

/-- Whether the pages that a client is told hold some apps in their order, as many on each as its size says,
and `n` is the number of them. -/
structure Tiled (infos : List AppInfo) (size : ℕ) (told : Int → AppsResult) (n : ℕ) : Prop where
  total : ∀ page : Int, (told page).totalPages = n
  least : IsLeast {m : ℕ | infos.length ≤ m * size} n
  whole : ((List.range n).flatMap fun i : ℕ => (told ((i : Int) + 1)).apps) = infos
  full : ∀ page : Int, 1 ≤ page → page < n → (told page).apps.length = size
  behind : ∀ page : Int, n < page → (told page).apps = []
  below : ∀ page : Int, page < 1 → told page = told 1

theorem tiled (few : (appInfos user d).length ≤ Text.Numeral.maxI64) (limit : Int) :
    Tiled (appInfos user d) (AppsParams.size limit) (fun page => appsPage ⟨page, limit⟩ user d)
      ((appInfos user d).length ⌈/⌉ AppsParams.size limit) := by
  have pos := (AppsParams.limit_normalized 1 limit).2
  have least := isLeast_ceilDiv pos (appInfos user d).length
  have total (page : Int) := totalPages_appsPage d user page limit
  generalize (appInfos user d).length ⌈/⌉ AppsParams.size limit = n at least total
  have start (i : ℕ) : (max ((i : Int) + 1) 1 - 1).toNat = i := by omega
  refine ⟨total, least, ?_, fun page first last => ?_, fun page behind => ?_,
    fun page below => appsPage_of_lt below limit user d⟩
  · simp only [apps_appsPage few, start]
    rw [← take_mul_eq_flatMap]
    exact List.take_of_length_le least.1
  · obtain ⟨k, rfl⟩ : ∃ k : ℕ, page = k + 1 := ⟨(page - 1).toNat, by omega⟩
    have more : (k + 1) * AppsParams.size limit < (appInfos user d).length := by
      by_contra enough
      have : n ≤ k + 1 := least.2 (Nat.le_of_not_lt enough)
      omega
    rw [Nat.succ_mul] at more
    rw [apps_appsPage few, start, List.length_take, List.length_drop]
    omega
  · have enough : (appInfos user d).length ≤ (max page 1 - 1).toNat * AppsParams.size limit :=
      least.1.trans (Nat.mul_le_mul_right _ (by omega))
    rw [apps_appsPage few, List.drop_of_length_le enough, List.take_nil]

/-- There are no more pages than apps. -/
theorem Tiled.count_le {infos : List AppInfo} {size n : ℕ} {told : Int → AppsResult}
    (h : Tiled infos size told n) (pos : 0 < size) : n ≤ infos.length :=
  h.least.2 (Nat.le_mul_of_pos_right _ pos)

/-- What is told of a page is that page. -/
theorem exists_told {n : ℕ}
    (h : Tiled (appInfos user d) (AppsParams.size limit) (fun page => appsPage ⟨page, limit⟩ user d) n)
    (few : (appInfos user d).length ≤ Text.Numeral.maxI64) (s : AppServer) {page : Int} {r : Rpc.Request}
    (method : r.method = "lemc.apps") (params : r.decodeParams AppsParams.decode = .ok ⟨page, limit⟩) :
    ∃ result, s.handle (.ok d) user r = .now (.ok r.id result) ∧
      AppsResult.decode result = .ok (appsPage ⟨page, limit⟩ user d) := by
  obtain ⟨j, read⟩ := r.exists_decodeParams AppsParams.decode
  have inside := AppsParams.yields_decode (read.symm.trans params)
  have told : (appsPage ⟨page, limit⟩ user d).page = max page 1 := rfl
  have total := h.total page
  have count := h.count_le (AppsParams.limit_normalized 1 limit).2
  have least : Text.Numeral.minI64 ≤ 1 := by decide
  have most : 1 ≤ Text.Numeral.maxI64 := by decide
  refine ⟨(appsPage ⟨page, limit⟩ user d).encode.freeform, ?_, AppsResult.decode_freeform ?_ ?_ ?_ ?_⟩
  · simp only [handle, method, withParams, params]
    rfl
  all_goals
    dsimp only at inside total
    omega

/-- A client that asks for a page of the apps is told that page, and can ask for every page with a number of 64
bits. If the size of a page and the number of the apps of the user's account are in all a signed number of 64
bits, then the pages up to the last one, one behind the other, are the apps of the account in their order, every
page before the last one is full, there are as few pages as can be, all pages behind the last one are empty, and
those below one are the first. -/
theorem apps_of_pages (d : Apps) (user : ApiUser) (limit : Int)
    (small : ((AppsParams.size limit + (appInfos user d).length : ℕ) : Int) ≤ Text.Numeral.maxI64) :
    ∃ told n, Tiled (appInfos user d) (AppsParams.size limit) told n ∧
      (∀ (s : AppServer) (page : Int) (r : Rpc.Request), r.method = "lemc.apps" →
        r.decodeParams AppsParams.decode = .ok ⟨page, limit⟩ →
        ∃ result, s.handle (.ok d) user r = .now (.ok r.id result) ∧
          AppsResult.decode result = .ok (told page)) ∧
      (Text.Numeral.minI64 ≤ limit → ∀ (id : Json) (page : Int), Text.Numeral.minI64 ≤ page →
        page ≤ Text.Numeral.maxI64 → (Rpc.Request.new id "lemc.apps"
          (.object [("page", .int page), ("limit", .int limit)])).decodeParams AppsParams.decode =
            .ok ⟨page, limit⟩) := by
  have few : ((appInfos user d).length : Int) ≤ Text.Numeral.maxI64 := by omega
  have pages := tiled few limit
  refine ⟨_, _, pages, fun s page r method params => exists_told pages few s method params, ?_⟩
  intro least id page early late
  have most : limit ≤ Text.Numeral.maxI64 := by
    unfold AppsParams.size at small
    split at small <;> omega
  exact AppsParams.decode_encode (p := ⟨page, limit⟩) early late least most

/-- Three apps of one account and one of another. -/
def shelf : Apps :=
  ⟨[⟨1, "a", "A", "", 10, true, .empty⟩, ⟨2, "b", "B", "", 20, true, .empty⟩,
    ⟨3, "c", "C", "", 10, true, .empty⟩, ⟨4, "a", "D", "", 10, false, .empty⟩], []⟩

/-- The first page of the shelf, with two apps on it. -/
def firstPage : Json :=
  .object [("apps", .array [AppInfo.inOrder ⟨"a", "A", ""⟩, AppInfo.inOrder ⟨"c", "C", ""⟩]),
    ("page", .int 1), ("total_pages", .int 2)]

def askBelow : Rpc.Request :=
  .new (.nat 1) "lemc.apps" (.object [("page", .int 0), ("limit", .int 2)])

/-- With two apps on a page there are two pages, and the page below the first is the first. -/
theorem apps_of_pages_shelf :
    ((AppsParams.size 2 + (appInfos ⟨5, 10⟩ shelf).length : ℕ) : Int) ≤ Text.Numeral.maxI64 ∧
      askBelow.decodeParams AppsParams.decode = .ok ⟨0, 2⟩ ∧
      handle ⟨1, "a", .empty, [], 1⟩ (.ok shelf) ⟨5, 10⟩ askBelow =
        .now (.ok (some (.nat 1)) firstPage) ∧
      ∃ told, Tiled (appInfos ⟨5, 10⟩ shelf) 2 told 2 ∧
        AppsResult.decode firstPage = .ok (told 1) := by
  have small : ((AppsParams.size 2 + (appInfos ⟨5, 10⟩ shelf).length : ℕ) : Int) ≤
      Text.Numeral.maxI64 := by decide
  have three : (appInfos ⟨5, 10⟩ shelf).length = 3 := by decide
  obtain ⟨told, n, tiled, tells, asked⟩ := apps_of_pages shelf ⟨5, 10⟩ 2 small
  obtain rfl : n = 2 := by
    have enough := tiled.least.1
    have most : n ≤ 2 := tiled.least.2 (by rw [Set.mem_ofPred_eq, three]; decide)
    have size : AppsParams.size 2 = 2 := rfl
    rw [Set.mem_ofPred_eq, three, size] at enough
    omega
  have params := asked (by decide) (.nat 1) 0 (by decide) (by decide)
  have answered : handle ⟨1, "a", .empty, [], 1⟩ (.ok shelf) ⟨5, 10⟩ askBelow =
      .now (.ok (some (.nat 1)) firstPage) := rfl
  refine ⟨small, params, answered, told, tiled, ?_⟩
  obtain ⟨result, same, read⟩ := tells ⟨1, "a", .empty, [], 1⟩ 0 askBelow rfl params
  rw [answered] at same
  obtain rfl : firstPage = result :=
    Option.some.inj (congrArg Rpc.Response.result (Reply.now.inj same))
  rw [read, tiled.below 0 (by decide)]

end AppServer

end Galley
