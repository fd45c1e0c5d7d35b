import Vortex.HtmlText
import Vortex.PlayerId

/-!
# The pages

What the scripts that answer a GET, and `live.php` for a key, send to the
browser: the templates as they are, with what is filled in.
-/

namespace Vortex

open Ascii

/-! ## The frame -/

-- what stands behind `?>` in a script is sent too, but for the first newline

/-- `header.php`. -/
def header : Bytes :=
  str "<!Doctype html>\n<html>\n<head>\n    <title>Video Vortex</title>\n\n" ++
    str "    <link rel=\"stylesheet\" href=\"/lib/bootstrap.min.css\"/>\n" ++
    str "    <link rel=\"stylesheet\" href=\"/lib/sites.css\"/>\n\n" ++
    str "    <link href=\"http://www.videovortex.stream/webapp/video.js/dist/video-js.css\" rel=\"stylesheet\">\n" ++
    str "    <script src=\"http://www.videovortex.stream/webapp/video.js/dist/video.js\"></script>\n\n" ++
    str "    <script>\n" ++
    str "    \tvideojs.options.flash.swf= \"http://www.videovortex.stream/webapp/video.js/dist/video-js.swf\"\n" ++
    str "    </script>\n</head>\n<body>\n<div class=\"container-fluid\">\n" ++
    str "\t<nav class=\"navbar navbar-default navbar-fixed-top\">\n" ++
    str "\t\t<div class=\"btn-group navbar-right\">\n" ++
    str "        \t<a href=\"/php/upload.php\" class=\"btn btn-default btn-lg\">Upload</a>\n" ++
    str "            <a href=\"/php/live.php\" class=\"btn btn-default btn-lg\">LiveStream</a>\n" ++
    str "        \t<a href=\"https://github.com/ngduser/vortex-video/blob/master/README.md\" class=\"btn btn-default btn-lg\">About</a>\n" ++
    str "        \t<a href=\"http://www.denig.me/\" class=\"btn btn-default btn-lg\">Contact</a>\n" ++
    str "\t\t</div>\n\t</nav>\n</div>\n" ++
    str "<div class=\"jumbotron center-text head-theme\" style=\"background-image: url(/lib/vortex.gif);\">\n" ++
    str "    <h1>Video Vortex</h1>\n    <p>Video Streaming Content Management and Delivery</p>\n</div>\n"

/-- `index_header.php`. -/
def indexHeader : Bytes :=
  str "<!Doctype html>\n<html>\n<head>\n    <title>Video Vortex</title>\n\n" ++
    str "    <link rel=\"stylesheet\" href=\"/lib/bootstrap.min.css\"/>\n" ++
    str "    <link rel=\"stylesheet\" href=\"/lib/sites.css\"/>\n\n" ++
    str "    <link href=\"http://http://www.videovortex.stream/webapp/video.js/dist/video-js.css\" rel=\"stylesheet\">\n" ++
    str "    <script src=\"http://http://www.videovortex.stream/webapp/video.js/dist/video.js\"></script>\n\n" ++
    str "    <script>\n" ++
    str "    \tvideojs.options.flash.swf= \"http://http://www.videovortex.stream/webapp/video.js/dist/video-js.swf\"\n" ++
    str "    </script>\n</head>\n<body>\n<div class=\"container-fluid\">\n" ++
    str "\t<nav class=\"navbar navbar-default navbar-fixed-top\">\n" ++
    str "\t\t<div class=\"btn-group navbar-right\">\n" ++
    str "        \t<a href=\"/php/upload.php\" class=\"btn btn-default btn-lg\">Upload</a>\n" ++
    str "            <a href=\"/php/live.php\" class=\"btn btn-default btn-lg\">LiveStream</a>\n" ++
    str "\t\t    <a href=\"https://github.com/ngduser/vortex-video/blob/master/README.md\" class=\"btn btn-default btn-lg\">About</a>\n" ++
    str "            <a href=\"http://www.denig.me/\" class=\"btn btn-default btn-lg\">Contact</a>\n" ++
    str "\t\t</div>\n\t</nav>\n</div>\n" ++
    str "<div class=\"jumbotron center-text head-theme\" style=\"background-image: url(/lib/vortex.gif); height:750px;\"> \n" ++
    str "    \t<div style=\"position: absolute; top: 40%; left:35%\">\n\t\t<h1>Video Vortex</h1>\n" ++
    str "    \t\t<p>Video Streaming Content Management and Delivery</p>\n\t</div>\n</div>\n"

def footer : Bytes := str "</body>\n</html>\n"


/-! ## index.php and player.php -/

def moreForm (startingRow : Bytes) : Bytes :=
  str "    <form action='' method='get'>\n    <button name='More' type='submit' value='" ++
    (startingRow ++ str "' style='border: none; background: none; padding: 0;'>\n        <h2>More</h2>\n    </button>\n")

def indexPage (l : Listing) : Bytes := indexHeader ++ (l.html ++ (moreForm l.next ++ (footer ++ str "\n\n")))

def playerPage (p : Player) : Bytes := header ++ (p.html ++ (footer ++ str "\n\n"))

/-- All that is printed when `fetch_array` is called on `false`:
`VideoPlayer.php` sets `display_errors`, and `php.ini` has `html_errors`. -/
def fatalPage : Bytes :=
  str "\n<br />\n<b>Fatal error</b>:  Call to a member function fetch_array() on a non-object in " ++
    str "<b>/srv/Sites/Vortex/html/php/VideoPlayer.php</b> on line <b>34</b><br />\n"

/-! ## upload.php -/

def uploadForm : Bytes :=
  let nl := str "\n"
  let tab := str "             "
  let f1 := str "      <div class=\"container center-block\">" ++ nl ++
    str "          <form enctype=\"multipart/form-data\" form action=\"/php/video_upload.php\" method=\"post\">"
  let f2 := str "    \t   \t<div class=form-group>\n " ++ tab ++ str " <h1>Video Upload</h1><br>\n " ++ tab ++
    str " <h4>Please Enter a Title for the Uploaded Video:</h4><br>\n"
  let f3 := tab ++ str "<textarea class=\"form-control\" rows=\"1\" id=\"comment\" name=\"title\"></textarea><br><br>" ++
    str "\t\t\t<h4>Now Describe the Video in 140 Characters or Less:</h4><br>"
  let f4 := nl ++ tab ++
    str "<textarea class=\"form-control\" rows=\"2\" id=\"comment\" name=\"description\"></textarea><br><br>" ++ nl ++
    tab ++ str "<h4>Video:</h4><br>" ++ nl ++ tab ++ str "<input type=\"file\" name=\"uploaded_video\""
  let f5 := str " id=\"uploaded_video\">" ++ nl ++ tab ++
    str "<input type=\"submit\" value=\"Upload Video\" class=\"btn btn-default btn-\" name=\"submit\">" ++ nl
  let f6 := str "          </div>\n          </form>\n      </div>"
  f1 ++ f2 ++ f3 ++ f4 ++ f5 ++ f6

def uploadPage : Bytes := header ++ (uploadForm ++ (footer ++ str "\n"))

/-! ## live.php -/

namespace Live

/-- `$p1`, `$p2` and `$p3` for a key. -/
def p1 (livekey : Bytes) : Bytes :=
  str "<div class=\"container\">" ++ (str "\n \t<h2>" ++ livekey ++ str "</h2>\n")

def p2 : Bytes :=
  str "         <video id=\"live\" class=\"video-js vjs-default-skin\" controls preload=\"auto\" width=\"860\" height=\"420\" data-setup=" ++
    str "'\x7b" ++ str "\"Dispay_option\":true\x7d'>\n"

def p3 (livekey : Bytes) : Bytes :=
  str "\t\t\t<source src=\"rtmp://www.videovortex.stream:1935/live/" ++ livekey ++ str "\" type=" ++ str "'rtmp/mp4'>" ++
    str "\"" ++ str ">\n \t\t    \n</video><br><br>"

def form : Bytes :=
  str "<div class=\"container form-group\">" ++ str "\n" ++ str "     <form enctype=\"multipart/form-data\" form action=\"\" method=\"post\">" ++
    (str "\n \t\t <h1>Please enter the LiveKey here</h1>\n \t\t<p>(Use test for test stream)</p>\n  \t\t" ++
    str "<textarea class=\"form-control\" rows=\"1\" id=\"LK\" name=\"LiveKey\"></textarea><br><br>" ++ str "\n") ++
    str "<input type=\"submit\" value=\"Submit Key\" class=\"btn btn-default btn-\" name=\"submit\">"

end Live

/-- `$content`. -/
def Live.content (key : Option Bytes) : Bytes :=
  match key with
  | some livekey => Live.p1 livekey ++ (Live.p2 ++ Live.p3 livekey)
  | none => Live.form

/-- The answer for `$_POST['LiveKey']`, if it is set. -/
def livePage (key : Option Bytes) : Bytes := header ++ (Live.content key ++ footer)

/-! ## error.php -/

/-- The keys of a PHP array: a decimal integer in its canonical form is an
integer key, everything else a string. -/
inductive PhpKey
  | int (n : Int)
  | str (x : Bytes)
  deriving DecidableEq

def isIndex (x : Bytes) : Bool :=
  x == [zero] || (x != [] && x.all isDigit && x.head? != some zero)

def phpKey (x : Bytes) : PhpKey :=
  match x with
  | [] => .str []
  | c :: y =>
    if isIndex x && digitsVal x ≤ 2 ^ 63 - 1 then .int (digitsVal x)
    else if c == dash && isIndex y && y != [zero] && digitsVal y ≤ 2 ^ 63 then .int (-digitsVal y)
    else .str x

/-- `$error_msg`. -/
def errorMsg : List (Bytes × Bytes) := [
  (str "11", str "<h1>Error with Video File</h1>\n<p>Please confirm file is valid and not corrupted or try again with different filetype.</p>"),
  (str "21", str "<h1>Upload Failed</h1>\n<p>Please confirm file size is under 400 mb and try again later.</p>"),
  (str "31", str "<h1>SQL Connect Error</h1>\n<p>Please try again in a few minutes.</p>"),
  (str "41", str "<h1>Unknown Video ID</h1>\n<p>Please ensure you entered a valid numerical ID value.</p>"),
  (str "51", str "<h1>Unspecified Error</h1>\n<p>Please try again in a few minutes.</p>"),
  (str "61", str "<h1>Playback Error</h1>\n<p>Problem with the video file, player, or stream. Try with another video and ensure you have enough bandwidth on a stable connection.</p>"),
  (str "400", str "<h1>400:Bad Request</h1>"),
  (str "401", str "<h1>401:Unauthorized Access</h1>"),
  (str "403", str "<h1>403:Forbidden</h1>"),
  (str "404", str "<h1>404:Not Found</h1>"),
  (str "500", str "<h1>500:Internal Service Error</h1>")]

/-- `$error_msg[$error_code]`, if the key exists. -/
def messageOf (errorCode : Bytes) : Option Bytes :=
  (errorMsg.find? fun e => phpKey e.1 == phpKey errorCode).map Prod.snd

def errorFrame (message : Bytes) : Bytes :=
  indexHeader ++ (str "<div class=\"center-text\">" ++ (message ++ (str "</div>" ++ footer)))

/-- The answer for `$_SERVER['PATH_INFO']`; one that is not set trims to
nothing. -/
def errorPage (pathInfo : Option Bytes) : Bytes :=
  let error_code := trimSlashes (pathInfo.getD [])
  let error_code := if error_code == [] || (messageOf error_code).isNone then str "51" else error_code
  errorFrame ((messageOf error_code).getD [])

/-! ## Evaluating templates -/

theorem str_ofList (l : List Char) : str (String.ofList l) = l.map fun c => c.toNat.toUInt8 := by
  rw [str, String.toList_ofList]

theorem closed_str (l : List Char) (h : after .data (l.map fun c => c.toNat.toUInt8) = .data) :
    Closed (str (String.ofList l)) := by
  rw [Closed, str_ofList]
  exact h

theorem tokens_str (l : List Char) {s : HtmlState} {ts : List HtmlToken}
    (h : tokensFrom s (l.map fun c => c.toNat.toUInt8) = ts) : tokensFrom s (str (String.ofList l)) = ts := by
  rw [str_ofList]
  exact h

end Vortex
