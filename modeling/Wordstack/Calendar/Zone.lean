import Wordstack.Calendar.Timestamp
import Wordstack.Calendar.ZoneHistory

/-!
# Time zones

- **Names** (`Calendar.isZone`): the names of the time zone database in any case, which are kept in
  lower case and grouped by what stands before the last slash, and offsets from UTC of hours with
  optional minutes.
- **Offsets** (`Calendar.offsetAt`): the seconds ahead of UTC at a timestamp. Fixed offsets are what
  they say, and zones with a history follow it.
- **Today** (`Calendar.dateAt`): the calendar date of a timestamp in a zone.
-/

namespace Wordstack

/-! ## Names -/

namespace Calendar

/-- Each area with its slash, and the names in it by lines of words. -/
def zoneNames : List (String × List String) := [
  ("", [
    "act aet agt art ast bet bst cat cet cnt cst cst6cdt ctt cuba eat ect eet egypt eire est",
    "est5edt gb gb-eire gmt gmt+0 gmt-0 gmt0 greenwich hongkong hst iceland iet iran israel",
    "ist jamaica japan jst kwajalein libya met mit mst mst7mdt navajo net nst nz nz-chat plt",
    "pnt poland portugal prc prt pst pst8pdt roc rok singapore sst turkey uct universal utc",
    "vst w-su wet zulu"]),
  ("africa/", [
    "abidjan accra addis_ababa algiers asmara asmera bamako bangui banjul bissau blantyre",
    "brazzaville bujumbura cairo casablanca ceuta conakry dakar dar_es_salaam djibouti douala",
    "el_aaiun freetown gaborone harare johannesburg juba kampala khartoum kigali kinshasa",
    "lagos libreville lome luanda lubumbashi lusaka malabo maputo maseru mbabane mogadishu",
    "monrovia nairobi ndjamena niamey nouakchott ouagadougou porto-novo sao_tome timbuktu",
    "tripoli tunis windhoek"]),
  ("america/", [
    "adak anchorage anguilla antigua araguaina aruba asuncion atikokan atka bahia",
    "bahia_banderas barbados belem belize blanc-sablon boa_vista bogota boise buenos_aires",
    "cambridge_bay campo_grande cancun caracas catamarca cayenne cayman chicago chihuahua",
    "ciudad_juarez coral_harbour cordoba costa_rica coyhaique creston cuiaba curacao",
    "danmarkshavn dawson dawson_creek denver detroit dominica edmonton eirunepe el_salvador",
    "ensenada fort_nelson fort_wayne fortaleza glace_bay godthab goose_bay grand_turk grenada",
    "guadeloupe guatemala guayaquil guyana halifax havana hermosillo indianapolis inuvik",
    "iqaluit jamaica jujuy juneau knox_in kralendijk la_paz lima los_angeles louisville",
    "lower_princes maceio managua manaus marigot martinique matamoros mazatlan mendoza",
    "menominee merida metlakatla mexico_city miquelon moncton monterrey montevideo montreal",
    "montserrat nassau new_york nipigon nome noronha nuuk ojinaga panama pangnirtung",
    "paramaribo phoenix port-au-prince port_of_spain porto_acre porto_velho puerto_rico",
    "punta_arenas rainy_river rankin_inlet recife regina resolute rio_branco rosario",
    "santa_isabel santarem santiago santo_domingo sao_paulo scoresbysund shiprock sitka",
    "st_barthelemy st_johns st_kitts st_lucia st_thomas st_vincent swift_current tegucigalpa",
    "thule thunder_bay tijuana toronto tortola vancouver virgin whitehorse winnipeg yakutat",
    "yellowknife"]),
  ("america/argentina/", [
    "buenos_aires catamarca comodrivadavia cordoba jujuy la_rioja mendoza rio_gallegos salta",
    "san_juan san_luis tucuman ushuaia"]),
  ("america/indiana/", [
    "indianapolis knox marengo petersburg tell_city vevay vincennes winamac"]),
  ("america/kentucky/", [
    "louisville monticello"]),
  ("america/north_dakota/", [
    "beulah center new_salem"]),
  ("antarctica/", [
    "casey davis dumontdurville macquarie mawson mcmurdo palmer rothera south_pole syowa",
    "troll vostok"]),
  ("arctic/", [
    "longyearbyen"]),
  ("asia/", [
    "aden almaty amman anadyr aqtau aqtobe ashgabat ashkhabad atyrau baghdad bahrain baku",
    "bangkok barnaul beirut bishkek brunei calcutta chita choibalsan chongqing chungking",
    "colombo dacca damascus dhaka dili dubai dushanbe famagusta gaza harbin hebron",
    "ho_chi_minh hong_kong hovd irkutsk istanbul jakarta jayapura jerusalem kabul kamchatka",
    "karachi kashgar kathmandu katmandu khandyga kolkata krasnoyarsk kuala_lumpur kuching",
    "kuwait macao macau magadan makassar manila muscat nicosia novokuznetsk novosibirsk omsk",
    "oral phnom_penh pontianak pyongyang qatar qostanay qyzylorda rangoon riyadh saigon",
    "sakhalin samarkand seoul shanghai singapore srednekolymsk taipei tashkent tbilisi tehran",
    "tel_aviv thimbu thimphu tokyo tomsk ujung_pandang ulaanbaatar ulan_bator urumqi ust-nera",
    "vientiane vladivostok yakutsk yangon yekaterinburg yerevan"]),
  ("atlantic/", [
    "azores bermuda canary cape_verde faeroe faroe jan_mayen madeira reykjavik south_georgia",
    "st_helena stanley"]),
  ("australia/", [
    "act adelaide brisbane broken_hill canberra currie darwin eucla hobart lhi lindeman",
    "lord_howe melbourne north nsw perth queensland south sydney tasmania victoria west",
    "yancowinna"]),
  ("brazil/", [
    "acre denoronha east west"]),
  ("canada/", [
    "atlantic central east-saskatchewan eastern mountain newfoundland pacific saskatchewan",
    "yukon"]),
  ("chile/", [
    "continental easterisland"]),
  ("etc/", [
    "gmt gmt+0 gmt+1 gmt+10 gmt+11 gmt+12 gmt+2 gmt+3 gmt+4 gmt+5 gmt+6 gmt+7 gmt+8 gmt+9",
    "gmt-0 gmt-1 gmt-10 gmt-11 gmt-12 gmt-13 gmt-14 gmt-2 gmt-3 gmt-4 gmt-5 gmt-6 gmt-7 gmt-8",
    "gmt-9 gmt0 greenwich uct universal utc zulu"]),
  ("europe/", [
    "amsterdam andorra astrakhan athens belfast belgrade berlin bratislava brussels bucharest",
    "budapest busingen chisinau copenhagen dublin gibraltar guernsey helsinki isle_of_man",
    "istanbul jersey kaliningrad kiev kirov kyiv lisbon ljubljana london luxembourg madrid",
    "malta mariehamn minsk monaco moscow nicosia oslo paris podgorica prague riga rome samara",
    "san_marino sarajevo saratov simferopol skopje sofia stockholm tallinn tirane tiraspol",
    "ulyanovsk uzhgorod vaduz vatican vienna vilnius volgograd warsaw zagreb zaporozhye",
    "zurich"]),
  ("indian/", [
    "antananarivo chagos christmas cocos comoro kerguelen mahe maldives mauritius mayotte",
    "reunion"]),
  ("mexico/", [
    "bajanorte bajasur general"]),
  ("pacific/", [
    "apia auckland bougainville chatham chuuk easter efate enderbury fakaofo fiji funafuti",
    "galapagos gambier guadalcanal guam honolulu johnston kanton kiritimati kosrae kwajalein",
    "majuro marquesas midway nauru niue norfolk noumea pago_pago palau pitcairn pohnpei",
    "ponape port_moresby rarotonga saipan samoa tahiti tarawa tongatapu truk wake wallis yap"]),
  ("systemv/", [
    "ast4 ast4adt cst6 cst6cdt est5 est5edt hst10 mst7 mst7mdt pst8 pst8pdt yst9 yst9ydt"]),
  ("us/", [
    "alaska aleutian arizona central east-indiana eastern hawaii indiana-starke michigan",
    "mountain pacific pacific-new samoa"])]

end Calendar

/-! ## Zones -/

namespace Calendar

/-- The minutes ahead of UTC that a sign, two digits of hours and optional minutes stand for. The
sign may be the minus sign `U+2212`. -/
def fixedOffset? (name : String) : Option Int :=
  match name.toList with
  | sign :: cs =>
    let negative := sign == '-' || sign.toNat == 0x2212
    if sign == '+' || negative then do
      let (hour, rest) ← readDigits 2 cs
      let (minute, rest) ←
        if rest.isEmpty then some (0, rest)
        else readDigits 2 (if rest.head? == some ':' then rest.drop 1 else rest)
      if rest.isEmpty && hour ≤ 23 && minute ≤ 59 then
        let minutes : Int := hour * 60 + minute
        some (if negative then -minutes else minutes)
      else none
    else none
  | [] => none

/-- The text in lower case, ASCII letters only. -/
def lowerAscii (s : String) : String := String.ofList (s.toList.map Char.toLower)

/-- Whether the lower case name is in the table. -/
def isListed (name : String) : Bool :=
  zoneNames.any fun (area, lines) =>
    Text.startsWith name area &&
      lines.any fun line => (Text.splitAt ' ' line).contains (Text.drop name area.length)

/-- Whether a time zone has this name. -/
def isZone (name : String) : Bool := (fixedOffset? name).isSome || isListed (lowerAscii name)

/-- The seconds ahead of UTC in a zone at a timestamp. -/
def offsetAt (zone : String) (t : Int) : Int :=
  match fixedOffset? zone with
  | some minutes => minutes * 60
  | none => ((zoneHistories.lookup (lowerAscii zone)).map (·.offset (t.fdiv 1000))).getD 0

/-- The calendar date of a timestamp in a zone. -/
def dateAt (zone : String) (t : Int) : Date :=
  dateOfDay (splitTimestamp (t + offsetAt zone t * 1000)).1

end Calendar

end Wordstack
