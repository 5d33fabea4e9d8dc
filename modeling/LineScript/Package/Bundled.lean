/-!
# Bundled packages

The files of the packages that come with the interpreter, and their index.
-/

namespace LineScript.Bundled

def easyguiLibrary : String :=
  "".intercalate
   ["import easygui as gui\r\n",
    "\r\n",
    "def App(name):\r\n",
    "    global var\r\n",
    "    var = gui.App(name)\r\n",
    "    return \"Started EasyGUI app with name \", name\r\n",
    "\r\n",
    "def text(text):\r\n",
    "    var.text(text)\r\n",
    "    return \"Added text \", text\r\n",
    "\r\n",
    "def run():\r\n",
    "    var.run()\r\n",
    "    return \"Running\""]

def easyguiManifest : String :=
  "".intercalate
   ["name=\"easygui\"\r\n",
    "version=\"0.1.0\"\r\n",
    "main=\"main.py\"\r\n",
    "language=\"python\"\r\n"]

def easyguiDemo : String :=
  "".intercalate
   ["import easygui as gui\r\n",
    "\r\n",
    "app = gui.App(\"My App\")\r\n",
    "app.text(\"Hello World!\")\r\n",
    "app.button(\"Click me!\", lambda: print(\"Clicked!\"))\r\n",
    "app.run()"]

def exampleReadme : String :=
  "".intercalate
   ["# This is an Example Guython Package.\r\n",
    "## Build your own Guython Package off of this!\r\n",
    "### Use the README for information on your package!\r\n"]

def exampleScript : String :=
  "".intercalate
   ["defexample_\r\n",
    ".print\"This is an example Guython Package for GPD\"\r\n"]

def exampleManifest : String :=
  "".intercalate
   ["name=\"example\"\r\n",
    "version=\"1.0\"\r\n",
    "main=\"main.gy\"\r\n",
    "language=\"guython\"\r\n"]

def index : String :=
  "".intercalate
   ["\x7b\r\n",
    "  \"time\": \x7b\r\n",
    "    \"version\": \"1.0.0\",\r\n",
    "    \"main\": \"time\",\r\n",
    "    \"language\": \"python\",\r\n",
    "    \"files\": [\r\n",
    "      \"time.py\",\r\n",
    "      \"README.md\",\r\n",
    "      \"manifest.gy\"\r\n",
    "    ]\r\n",
    "  \x7d,\r\n",
    "  \"easygui\": \x7b\r\n",
    "    \"version\": \"0.1.0\",\r\n",
    "    \"main\": \"main\",\r\n",
    "    \"language\": \"python\",\r\n",
    "    \"files\": [\r\n",
    "      \"main.py\",\r\n",
    "      \"manifest.gy\"\r\n",
    "    ]\r\n",
    "  \x7d,\r\n",
    "  \"example-package\": \x7b\r\n",
    "    \"version\": \"1.1.0\",\r\n",
    "    \"main\": \"main\",\r\n",
    "    \"language\": \"guython\",\r\n",
    "    \"files\": [\r\n",
    "      \"main.gy\",\r\n",
    "      \"manifest.gy\",\r\n",
    "      \"README.md\"\r\n",
    "    ]\r\n",
    "  \x7d,\r\n",
    "  \"text\": \x7b\r\n",
    "    \"version\": \"1.0.0\",\r\n",
    "    \"main\":\"main\",\r\n",
    "    \"files\": [\r\n",
    "      \"main.py\",\r\n",
    "      \"README.md\",\r\n",
    "      \"manifest.gy\"\r\n",
    "    ]\r\n",
    "  \x7d\r\n",
    "\x7d"]

def textLibrary : String :=
  "".intercalate
   ["def reverse(s):\r\n",
    "    \"\"\"Reverse a string\"\"\"\r\n",
    "    return s[::-1]\r\n",
    "\r\n",
    "def toupper(s):\r\n",
    "    \"\"\"Convert string to uppercase\"\"\"\r\n",
    "    return s.upper()\r\n",
    "\r\n",
    "def tolower(s):\r\n",
    "    \"\"\"Convert string to lowercase\"\"\"\r\n",
    "    return s.lower()\r\n",
    "\r\n",
    "def capitalize(s):\r\n",
    "    \"\"\"Capitalize the first character\"\"\"\r\n",
    "    return s.capitalize()\r\n",
    "\r\n",
    "def titlecase(s):\r\n",
    "    \"\"\"Convert string to title case\"\"\"\r\n",
    "    return s.title()\r\n",
    "\r\n",
    "def countsubstring(s, sub):\r\n",
    "    \"\"\"Count occurrences of a substring\"\"\"\r\n",
    "    return s.count(sub)\r\n",
    "\r\n",
    "def startswith(s, prefix):\r\n",
    "    \"\"\"Check if string starts with prefix\"\"\"\r\n",
    "    return s.startswith(prefix)\r\n",
    "\r\n",
    "def endswith(s, suffix):\r\n",
    "    \"\"\"Check if string ends with suffix\"\"\"\r\n",
    "    return s.endswith(suffix)\r\n",
    "\r\n",
    "def removewhitespace(s):\r\n",
    "    \"\"\"Remove all whitespace\"\"\"\r\n",
    "    return \"\".join(s.split())\r\n",
    "\r\n",
    "def isnumeric(s):\r\n",
    "    \"\"\"Check if string is numeric\"\"\"\r\n",
    "    return s.isnumeric()\r\n",
    "\r\n",
    "def strip(s):\r\n",
    "    \"\"\"Strip whitespace from both ends\"\"\"\r\n",
    "    return s.strip()\r\n",
    "\r\n",
    "def lstrip(s):\r\n",
    "    \"\"\"Strip whitespace from the left\"\"\"\r\n",
    "    return s.lstrip()\r\n",
    "\r\n",
    "def rstrip(s):\r\n",
    "    \"\"\"Strip whitespace from the right\"\"\"\r\n",
    "    return s.rstrip()\r\n",
    "\r\n",
    "def stripchars(s, chars):\r\n",
    "    \"\"\"Strip specified characters from both ends\"\"\"\r\n",
    "    return s.strip(chars)\r\n",
    "\r\n",
    "def lstripchars(s, chars):\r\n",
    "    \"\"\"Strip specified characters from the left\"\"\"\r\n",
    "    return s.lstrip(chars)\r\n",
    "\r\n",
    "def rstripchars(s, chars):\r\n",
    "    \"\"\"Strip specified characters from the right\"\"\"\r\n",
    "    return s.rstrip(chars)\r\n",
    "\r\n",
    "def replace(s, old, new, count=-1):\r\n",
    "    \"\"\"\r\n",
    "    Replace occurrences of 'old' with 'new' in string 's'.\r\n",
    "    If count is specified, replaces up to 'count' times.\r\n",
    "    \"\"\"\r\n",
    "    return s.replace(old, new, count)"]

def textManifest : String :=
  "".intercalate
   ["name=\"text\"\r\n",
    "version=\"1.0.0\"\r\n",
    "main=\"main.py\"\r\n",
    "language=\"python\""]

def textReadme : String := ""

def timeReadme : String :=
  "".intercalate
   ["# This add ***time*** elements to Guython!\n",
    "Use this to add time!\n"]

def timeManifest : String :=
  "".intercalate
   ["name=\"time\"\n",
    "version=\"1.0.0\"\n",
    "main=\"time.py\"\n",
    "language=\"python\"\n"]

def timeLibrary : String :=
  "".intercalate
   ["import time\n",
    "import datetime\n",
    "\n",
    "def current_time():\n",
    "    \"\"\"Returns current time in human-readable format\"\"\"\n",
    "    return time.strftime(\"%Y-%m-%d %H:%M:%S\")\n",
    "\n",
    "def timestamp():\n",
    "    \"\"\"Returns raw timestamp\"\"\"\n",
    "    return time.time()\n",
    "\n",
    "def sleep(seconds):\n",
    "    \"\"\"Sleep for specified seconds\"\"\"\n",
    "    time.sleep(seconds)\n",
    "\n",
    "def future_date(days=0):\n",
    "    \"\"\"Get future date as string (YYYY-MM-DD)\"\"\"\n",
    "    date = datetime.datetime.now() + datetime.timedelta(days=days)\n",
    "    return date.strftime(\"%Y-%m-%d\")\n",
    "\n",
    "def timezone():\n",
    "    \"\"\"Get current timezone information\"\"\"\n",
    "    return time.tzname\n",
    "\n",
    "def day_of_week():\n",
    "    \"\"\"Get current day name\"\"\"\n",
    "    return datetime.datetime.now().strftime(\"%A\")\n",
    "\n",
    "def formatted_time(fmt=\"%H:%M:%S\"):\n",
    "    \"\"\"Returns custom formatted time string\"\"\"\n",
    "    return time.strftime(fmt)\n"]

/-- Paths below the folder of packages, and what the files hold. -/
def files : List (String × String) :=
  [("easygui/main.py", easyguiLibrary),
   ("easygui/manifest.gy", easyguiManifest),
   ("easygui/test.py", easyguiDemo),
   ("example-package/README.md", exampleReadme),
   ("example-package/main.gy", exampleScript),
   ("example-package/manifest.gy", exampleManifest),
   ("gpd_index.json", index),
   ("text/main.py", textLibrary),
   ("text/manifest.gy", textManifest),
   ("text/readme.md", textReadme),
   ("time/README.md", timeReadme),
   ("time/manifest.gy", timeManifest),
   ("time/time.py", timeLibrary)]

end LineScript.Bundled
